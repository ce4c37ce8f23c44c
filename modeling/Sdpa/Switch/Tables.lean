import Sdpa.Lib.Endian
import Sdpa.Switch.Hmap

/-!
# The application tables of `ofproto/sfa.h`

A state table and an action table are hash maps whose nodes are filed under
`hash_string` of the entry's own key. That is an invariant of the tables, so it
is a field of `Entries`. The hash is a parameter of the whole model: nothing
below depends on which function `hash_string` is.
-/
namespace Sdpa.Switch

open Sdpa.Lib.Endian
open Sdpa.Lib.Bins

/-- A NUL-terminated string, without its terminator. -/
abbrev Key := List Byte

/-- What C leaves undefined, or what ends the process. -/
inductive Fault
  | readOutside
  | storeOutside
  | nullPointer
  | indeterminate
  | assertion
  deriving DecidableEq

/-- A hash map of entries filed under the hash of their key. -/
structure Entries {α : Type} (hash : Key → BitVec 32) (data : α → Key) where
  map : Hmap α
  hashed : ∀ nd ∈ nodes map, nd.hash = hash (data nd.entry)

namespace Entries

variable {α : Type} {hash : Key → BitVec 32} {data : α → Key}

def init : Entries hash data where
  map := hmapInit
  hashed := by
    intro nd hnd
    simp [nodes, hmapInit, emptyTable, readOut] at hnd

/-- `hmap_insert` under `hash_string` of the entry's key. -/
def insert (t : Entries hash data) (e : α) : Entries hash data where
  map := hmapInsert t.map (hash (data e)) e
  hashed := by
    intro nd hnd
    rcases mem_nodes_insert.mp hnd with rfl | hold
    · rfl
    · exact t.hashed nd hold

/-- `hmap_remove` of the first node with the hash of the key. -/
def remove (t : Entries hash data) (key : Key) : Entries hash data where
  map := hmapRemove t.map (hash key)
  hashed := fun nd hnd => t.hashed nd (mem_nodes_remove hnd)

/-- A store to the first node with the hash of the key that keeps its own key. -/
def write (t : Entries hash data) (key : Key) (f : α → α) (hf : ∀ e, data (f e) = data e) :
    Entries hash data where
  map := hmapWriteFirst t.map (hash key) f
  hashed := by
    intro nd hnd
    rcases mem_nodes_writeFirst hnd with hold | ⟨old, hmem, _, rfl⟩
    · exact t.hashed nd hold
    · rw [Node.mapEntry, hf]
      exact t.hashed old hmem

def first (t : Entries hash data) (key : Key) : Option α := hmapFirstWithHash t.map (hash key)

/-- What a walk over the hash of the key visits, in order. -/
def withHash (t : Entries hash data) (key : Key) : List α := chain t.map (hash key)

def entries (t : Entries hash data) : List α := values t.map

theorem first_eq_head (t : Entries hash data) (key : Key) :
    t.first key = (t.withHash key).head? :=
  hmapFirstWithHash_eq_head t.map (hash key)

/-- The walk visits the entries whose key has that hash. -/
theorem withHash_eq_filter (t : Entries hash data) (key : Key) :
    t.withHash key = t.entries.filter (fun e => hash (data e) == hash key) := by
  rw [withHash, chain_eq_nodes, entries, values, List.filter_map]
  congr 1
  apply List.filter_congr
  intro nd hnd
  rw [t.hashed nd hnd]
  rfl

theorem mem_withHash {t : Entries hash data} {key : Key} {e : α} :
    e ∈ t.withHash key ↔ e ∈ t.entries ∧ hash (data e) = hash key := by
  rw [withHash_eq_filter, List.mem_filter, beq_iff_eq]

@[simp] theorem entries_init : (init : Entries hash data).entries = [] := by
  simp [entries, init, values, nodes, hmapInit, emptyTable, readOut]

theorem not_mem_init {e : α} : e ∉ (init : Entries hash data).entries := by
  rw [entries_init]
  exact List.not_mem_nil

theorem entries_insert (t : Entries hash data) (e : α) :
    ((t.insert e).entries : Multiset α) = e ::ₘ (t.entries : Multiset α) :=
  values_insert t.map (hash (data e)) e

theorem mem_entries_insert {t : Entries hash data} {e x : α} :
    x ∈ (t.insert e).entries ↔ x = e ∨ x ∈ t.entries := by
  rw [← Multiset.mem_coe, entries_insert, Multiset.mem_cons, Multiset.mem_coe]

theorem mem_entries_remove {t : Entries hash data} {k : Key} {x : α}
    (h : x ∈ (t.remove k).entries) : x ∈ t.entries := by
  obtain ⟨nd, hnd, rfl⟩ := List.mem_map.mp h
  exact List.mem_map_of_mem (mem_nodes_remove hnd)

theorem mem_entries_write {t : Entries hash data} {k : Key} {f : α → α}
    {hf : ∀ e, data (f e) = data e} {x : α} (h : x ∈ (t.write k f hf).entries) :
    ∃ old ∈ t.entries, data old = data x := by
  obtain ⟨nd, hnd, rfl⟩ := List.mem_map.mp h
  rcases mem_nodes_writeFirst hnd with hold | ⟨old, hmem, _, rfl⟩
  · exact ⟨nd.entry, List.mem_map_of_mem hold, rfl⟩
  · exact ⟨old.entry, List.mem_map_of_mem hmem, (hf old.entry).symm⟩

/-- A store replaces the first entry whose key has the hash. -/
theorem entries_write (t : Entries hash data) (k : Key) (f : α → α)
    (hf : ∀ e, data (f e) = data e) :
    (t.write k f hf).entries =
      modifyFirst (fun e => hash (data e) == hash k) f t.entries := by
  have hnodes := nodes_writeFirst t.map (hash k) f
  rw [entries, values, write, hnodes]
  refine map_modifyFirst_of_comm (m := Node.entry) (fun _ => rfl) fun nd hnd => ?_
  rw [t.hashed nd hnd]

theorem first_eq_find (t : Entries hash data) (key : Key) :
    t.first key = t.entries.find? (fun e => hash (data e) == hash key) := by
  rw [first_eq_head, withHash_eq_filter, List.head?_filter]

theorem first_of_mem {t : Entries hash data} {e : α} (h : e ∈ t.entries) :
    ∃ e', t.first (data e) = some e' := by
  rw [first_eq_find]
  exact Option.isSome_iff_exists.mp (List.find?_isSome.mpr ⟨e, h, beq_self_eq_true _⟩)

theorem mem_of_first {t : Entries hash data} {key : Key} {e : α} (h : t.first key = some e) :
    e ∈ t.entries := by
  rw [first_eq_find] at h
  exact List.mem_of_find?_eq_some h

theorem withHash_insert (t : Entries hash data) (e : α) (key : Key) :
    (t.insert e).withHash key =
      if expands t.map then
        (if hash key = hash (data e) then e :: t.withHash key else t.withHash key).reverse
      else if hash key = hash (data e) then e :: t.withHash key else t.withHash key :=
  chain_insert t.map (hash (data e)) e (hash key)

theorem withHash_remove (t : Entries hash data) (k key : Key) :
    (t.remove k).withHash key =
      if hash key = hash k then (t.withHash key).tail else t.withHash key :=
  chain_remove t.map (hash k) (hash key)

theorem withHash_write (t : Entries hash data) (k key : Key) (f : α → α)
    (hf : ∀ e, data (f e) = data e) :
    (t.write k f hf).withHash key =
      if hash key = hash k then (t.withHash key).modifyHead f else t.withHash key :=
  chain_writeFirst t.map (hash k) f (hash key)

/-- A store of what the entry holds. -/
theorem write_eq_self {t : Entries hash data} {key : Key} {f : α → α}
    {hf : ∀ e, data (f e) = data e} (h : ∀ e, t.first key = some e → f e = e) :
    t.write key f hf = t := by
  simp only [write, hmapWriteFirst_eq_self h]

/-- The entries of a key are found on the walk over its hash. -/
theorem filter_data_eq (t : Entries hash data) (key : Key) :
    t.entries.filter (fun e => data e == key) = (t.withHash key).filter (fun e => data e == key) := by
  rw [withHash_eq_filter, List.filter_filter]
  apply List.filter_congr
  intro e _
  cases h : data e == key with
  | false => rfl
  | true => rw [eq_of_beq h, beq_self_eq_true]; rfl

theorem write_comm (t : Entries hash data) {k₁ k₂ : Key} (hne : hash k₁ ≠ hash k₂) {f g : α → α}
    (hf : ∀ e, data (f e) = data e) (hg : ∀ e, data (g e) = data e) :
    (t.write k₁ f hf).write k₂ g hg = (t.write k₂ g hg).write k₁ f hf := by
  simp only [write, hmapWriteFirst_comm t.map hne f g]

end Entries

/-! ## The records -/

structure StMatchEntry where
  data : Key
  lastStatus : BitVec 32
  deriving DecidableEq

structure SfaAction where
  actype : BitVec 32
  acparam : BitVec 32
  deriving DecidableEq

structure AtMatchEntry where
  data : Key
  lastStatus : BitVec 32
  act : SfaAction
  deriving DecidableEq

/-- `struct STT_MATCH_ENTRY`. The enumerations are the words a message carries,
whatever their value. -/
structure SttMatchEntry where
  paramLeftType : BitVec 32
  paramLeft : BitVec 64
  oprator : BitVec 32
  paramRightType : BitVec 32
  paramRight : BitVec 64
  lastStatus : BitVec 32
  curStatus : BitVec 32
  deriving DecidableEq

structure StatusTable (hash : Key → BitVec 32) where
  matchBitmap : BitVec 64
  stEntrys : Entries hash StMatchEntry.data

structure ActionTable (hash : Key → BitVec 32) where
  bitmap : BitVec 64
  atEntrys : Entries hash AtMatchEntry.data

structure ControllApp (hash : Key → BitVec 32) where
  appid : BitVec 32
  pst : StatusTable hash
  pstt : List SttMatchEntry
  pat : ActionTable hash

/-- `struct APPS`. Until the first create message the list head is not set up,
and no identifier is ever listed twice. -/
structure GApps (hash : Key → BitVec 32) where
  islistinit : Bool
  appslist : List (ControllApp hash)
  fresh : islistinit = false → appslist = []
  distinct : (appslist.map ControllApp.appid).Nodup

/-- The action that `xlate_fp` finds for a key and a state: the first entry of the
walk that has the state. The key itself is not compared. -/
def atLookup {hash : Key → BitVec 32} (t : Entries hash AtMatchEntry.data) (key : Key)
    (status : BitVec 32) : Option SfaAction :=
  ((t.withHash key).find? (fun e => e.lastStatus == status)).map AtMatchEntry.act

namespace GApps

variable {hash : Key → BitVec 32}

/-- `g_apps` as the program starts: static storage, all zero. -/
def start : GApps hash := ⟨false, [], fun _ => rfl, List.nodup_nil⟩

/-- `LIST_FOR_EACH` up to the first app with the identifier. -/
def find (g : GApps hash) (aid : BitVec 32) : Option (ControllApp hash) :=
  g.appslist.find? (fun app => app.appid == aid)

/-- A store through the pointer that the search returned. -/
def modify (g : GApps hash) (aid : BitVec 32) (f : ControllApp hash → ControllApp hash)
    (hf : ∀ app, (f app).appid = app.appid) : GApps hash where
  islistinit := g.islistinit
  appslist := modifyFirst (fun app => app.appid == aid) f g.appslist
  fresh := by
    intro h
    rw [g.fresh h]
    rfl
  distinct := by
    rw [map_modifyFirst ControllApp.appid hf]
    exact g.distinct

/-- `list_insert` before the head: the app becomes the last of the list. -/
def append (g : GApps hash) (app : ControllApp hash) (h : g.find app.appid = none) :
    GApps hash where
  islistinit := true
  appslist := g.appslist ++ [app]
  fresh := by simp
  distinct := by
    have hnot := List.find?_eq_none.mp h
    rw [List.map_append, List.nodup_append]
    refine ⟨g.distinct, List.nodup_singleton _, ?_⟩
    intro id hid id' hid' heq
    obtain ⟨old, hold, rfl⟩ := List.mem_map.mp hid
    rw [List.map_singleton, List.mem_singleton] at hid'
    exact hnot old hold (beq_iff_eq.mpr (heq.trans hid'))

theorem find_of_mem {g : GApps hash} {app : ControllApp hash} (h : app ∈ g.appslist) :
    g.find app.appid = some app := by
  have hd := g.distinct
  rw [find]
  generalize g.appslist = l at h hd
  induction l with
  | nil => cases h
  | cons x l ih =>
    rw [List.map_cons, List.nodup_cons] at hd
    rcases List.mem_cons.mp h with rfl | hl
    · simp
    · have hne : x.appid ≠ app.appid := by
        intro heq
        apply hd.1
        rw [heq]
        exact List.mem_map_of_mem hl
      rw [List.find?_cons_of_neg (by simpa using hne)]
      exact ih hl hd.2

/-- A store through the app that was found is seen by searches for it and by no other. -/
theorem find_modify (g : GApps hash) (aid id : BitVec 32) (f : ControllApp hash → ControllApp hash)
    (hf : ∀ app, (f app).appid = app.appid) :
    (g.modify aid f hf).find id = if id = aid then (g.find id).map f else g.find id := by
  rw [find, find, modify]
  by_cases hid : id = aid
  · subst hid
    rw [if_pos rfl, ← List.head?_filter, ← List.head?_filter,
      filter_modifyFirst_self (fun app => by rw [hf])]
    cases g.appslist.filter (fun app => app.appid == id) <;> rfl
  · have hdis : ∀ app : ControllApp hash, (app.appid == aid) = true → ¬ (app.appid == id) = true := by
      intro app h1 h2
      exact hid ((eq_of_beq h2).symm.trans (eq_of_beq h1))
    rw [if_neg hid, ← List.head?_filter, ← List.head?_filter,
      filter_modifyFirst_disjoint hdis (fun app => by rw [hf])]

theorem modify_eq_self {g : GApps hash} {aid : BitVec 32} {f : ControllApp hash → ControllApp hash}
    {hf : ∀ app, (f app).appid = app.appid} (h : ∀ app, g.find aid = some app → f app = app) :
    g.modify aid f hf = g := by
  simp only [modify, modifyFirst_eq_self h]

theorem modify_comm (g : GApps hash) {id₁ id₂ : BitVec 32} (hne : id₁ ≠ id₂)
    {f₁ f₂ : ControllApp hash → ControllApp hash} (h₁ : ∀ app, (f₁ app).appid = app.appid)
    (h₂ : ∀ app, (f₂ app).appid = app.appid) :
    (g.modify id₁ f₁ h₁).modify id₂ f₂ h₂ = (g.modify id₂ f₂ h₂).modify id₁ f₁ h₁ := by
  have hlist := modifyFirst_comm (p := fun app : ControllApp hash => app.appid == id₂)
    (q := fun app : ControllApp hash => app.appid == id₁) (f := f₂) (g := f₁)
    (fun app h2 h1 => hne ((eq_of_beq h1).symm.trans (eq_of_beq h2)))
    (fun app => by rw [h₂]) (fun app => by rw [h₁]) g.appslist
  simp only [modify, hlist]

/-- Two stores through one app commute if they commute on the app. -/
theorem modify_modify_comm (g : GApps hash) (aid : BitVec 32)
    {f₁ f₂ : ControllApp hash → ControllApp hash} (h₁ : ∀ app, (f₁ app).appid = app.appid)
    (h₂ : ∀ app, (f₂ app).appid = app.appid) (hcomm : ∀ app, f₂ (f₁ app) = f₁ (f₂ app)) :
    (g.modify aid f₁ h₁).modify aid f₂ h₂ = (g.modify aid f₂ h₂).modify aid f₁ h₁ := by
  have hcomp : f₂ ∘ f₁ = f₁ ∘ f₂ := funext hcomm
  have hid : ∀ f : ControllApp hash → ControllApp hash, (∀ app, (f app).appid = app.appid) →
      ∀ app, ((f app).appid == aid) = (app.appid == aid) := fun f hf app => by rw [hf]
  have hlist := modifyFirst_modifyFirst (p := fun app => app.appid == aid) (f := f₂) (g := f₁)
    (hid f₁ h₁) g.appslist
  rw [hcomp, ← modifyFirst_modifyFirst (p := fun app => app.appid == aid) (f := f₁) (g := f₂)
    (hid f₂ h₂) g.appslist] at hlist
  simp only [modify, hlist]

theorem find_isSome_islistinit {g : GApps hash} {aid : BitVec 32} {app : ControllApp hash}
    (h : g.find aid = some app) : g.islistinit = true := by
  cases hi : g.islistinit with
  | true => rfl
  | false =>
    rw [find, g.fresh hi] at h
    cases h

end GApps

end Sdpa.Switch
