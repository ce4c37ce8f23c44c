import Sdpa.Switch.Tables

/-!
# The message handlers of `ofproto/sfa.c`

Each handler walks a cursor over the received bytes. A load outside them is a
fault, as is a store outside the buffer that `xmalloc` returned for a key. The
handlers also return the cursor they end with, which the code keeps in a local.
The layout is that of a little-endian i686 build: `struct sfa_msg_init_st` has 16
bytes, `sfa_msg_init_stt` 36, `sfa_msg_init_at` 12 and `SFA_ACTION` 8.
-/
namespace Sdpa.Switch

open Sdpa.Lib.Endian

def load32 (msg : List Byte) (off : Nat) : Except Fault (BitVec 32) :=
  match slice msg off 4 with
  | some bs => .ok (leWord 4 bs)
  | none => .error .readOutside

def load64 (msg : List Byte) (off : Nat) : Except Fault (BitVec 64) :=
  match slice msg off 8 with
  | some bs => .ok (leWord 8 bs)
  | none => .error .readOutside

def ntohl (w : BitVec 32) : BitVec 32 := bswap 4 w

def ntohll (w : BitVec 64) : BitVec 64 := bswap 8 w

/-- `ntohl(*(uint32_t *) cursor)`. -/
def net32 (msg : List Byte) (off : Nat) : Except Fault (BitVec 32) := do
  return ntohl (← load32 msg off)

def net64 (msg : List Byte) (off : Nat) : Except Fault (BitVec 64) := do
  return ntohll (← load64 msg off)

/-- What a string function sees of bytes that a NUL follows. -/
def cString (bytes : List Byte) : Key := bytes.takeWhile (· != 0)

/-- `xmalloc(len + 2)`, the stores of NUL at `nul` and at `len`, and the `memcpy`
of `len` bytes. The size and both indices are 32-bit. -/
def copyKey (msg : List Byte) (off : Nat) (len nul : BitVec 32) : Except Fault Key :=
  if nul.toNat < (len + 2).toNat ∧ len.toNat < (len + 2).toNat then
    match slice msg off len.toNat with
    | some bytes => .ok (cString bytes)
    | none => .error .readOutside
  else .error .storeOutside

/-- A loop over `int i` from 0 up to an `int`: a negative bound runs no round. -/
def intRounds (count : BitVec 32) : Nat := count.toInt.toNat

inductive SfaErr
  | ok
  | error
  deriving DecidableEq

variable {hash : Key → BitVec 32}

/-! ## `sfa_msg_init` -/

def initStEntrys (msg : List Byte) : Nat → Nat → Entries hash StMatchEntry.data →
    Except Fault (Entries hash StMatchEntry.data × Nat)
  | 0, cursor, st => .ok (st, cursor)
  | n + 1, cursor, st => do
    let lastStatus ← net32 msg cursor
    let len ← net32 msg (cursor + 4)
    let data ← copyKey msg (cursor + 8) len (len + 1)
    initStEntrys msg n (cursor + 8 + len.toNat) (st.insert ⟨data, lastStatus⟩)

def initSttEntrys (msg : List Byte) : Nat → Nat → List SttMatchEntry →
    Except Fault (List SttMatchEntry × Nat)
  | 0, cursor, stt => .ok (stt, cursor)
  | n + 1, cursor, stt => do
    let curStatus ← net32 msg (cursor + 32)
    let oprator ← net32 msg (cursor + 24)
    let paramLeft ← net64 msg (cursor + 4)
    let paramLeftType ← net32 msg cursor
    let paramRight ← net64 msg (cursor + 16)
    let paramRightType ← net32 msg (cursor + 12)
    let lastStatus ← net32 msg (cursor + 28)
    initSttEntrys msg n (cursor + 36) (stt ++
      [⟨paramLeftType, paramLeft, oprator, paramRightType, paramRight, lastStatus, curStatus⟩])

/-- Here the first NUL goes to `len - 1`, which an empty key puts outside. -/
def initAtEntrys (msg : List Byte) : Nat → Nat → Entries hash AtMatchEntry.data →
    Except Fault (Entries hash AtMatchEntry.data × Nat)
  | 0, cursor, tbl => .ok (tbl, cursor)
  | n + 1, cursor, tbl => do
    let actype ← net32 msg cursor
    let acparam ← net32 msg (cursor + 4)
    let lastStatus ← net32 msg (cursor + 8)
    let len ← net32 msg (cursor + 12)
    let data ← copyKey msg (cursor + 16) len (len - 1)
    initAtEntrys msg n (cursor + 16 + len.toNat) (tbl.insert ⟨data, lastStatus, actype, acparam⟩)

/-- The list head is set up before the search, so a handled create message always
leaves `islistinit` set; a search that finds the app had it set before. -/
def sfaMsgInit (msg : List Byte) (g : GApps hash) : Except Fault (SfaErr × GApps hash × Nat) := do
  let aid ← net32 msg 8
  match h : g.find aid with
  | some _ => return (.ok, g, 24)
  | none =>
    let loopCt ← net32 msg 20
    let matchBitmap ← net64 msg 12
    let (st, cursor) ← initStEntrys msg (intRounds loopCt) 24 Entries.init
    let sttCount ← net32 msg cursor
    let (stt, cursor) ← initSttEntrys msg sttCount.toNat (cursor + 4) []
    let loopCt ← net32 msg (cursor + 8)
    let bitmap ← net64 msg cursor
    let (tbl, cursor) ← initAtEntrys msg (intRounds loopCt) (cursor + 12) Entries.init
    return (.ok, g.append ⟨aid, ⟨matchBitmap, st⟩, stt, ⟨bitmap, tbl⟩⟩ h, cursor)

/-! ## `sfa_msg_st_mod` -/

def entryAdd : BitVec 32 := 0
def entryUpdate : BitVec 32 := 1
def entryDel : BitVec 32 := 2

theorem entryUpdate_ne_entryAdd : entryUpdate ≠ entryAdd := by decide
theorem entryDel_ne_entryAdd : entryDel ≠ entryAdd := by decide
theorem entryDel_ne_entryUpdate : entryDel ≠ entryUpdate := by decide

def StMatchEntry.setStatus (status : BitVec 32) (e : StMatchEntry) : StMatchEntry :=
  { e with lastStatus := status }

theorem StMatchEntry.setStatus_data (status : BitVec 32) (e : StMatchEntry) :
    (e.setStatus status).data = e.data := rfl

/-- One round of the loop: the table and the cursor after it. -/
def stModItem (msg : List Byte) (cursor : Nat) (st : Entries hash StMatchEntry.data) :
    Except Fault (SfaErr × Entries hash StMatchEntry.data × Nat) := do
  let tmt ← net32 msg cursor
  if tmt = entryAdd then
    let status ← net32 msg (cursor + 4)
    let len ← net32 msg (cursor + 8)
    let data ← copyKey msg (cursor + 12) len (len + 1)
    match st.first data with
    | some _ => return (.ok, st, cursor + 12 + len.toNat)
    | none => return (.ok, st.insert ⟨data, status⟩, cursor + 12 + len.toNat)
  else if tmt = entryUpdate then
    let status ← net32 msg (cursor + 4)
    let len ← net32 msg (cursor + 8)
    let data ← copyKey msg (cursor + 12) len (len + 1)
    match st.first data with
    | none => return (.ok, st, cursor + 12 + len.toNat)
    | some _ =>
      let st := st.write data (StMatchEntry.setStatus status) (StMatchEntry.setStatus_data status)
      return (.ok, st, cursor + 12 + len.toNat)
  else if tmt = entryDel then
    let len ← net32 msg (cursor + 8)
    let data ← copyKey msg (cursor + 12) len (len + 1)
    match st.first data with
    | none => return (.ok, st, cursor + 12 + len.toNat)
    | some _ => return (.ok, st.remove data, cursor + 12 + len.toNat)
  else return (.error, st, cursor)

/-- The loop over the items, left early at an item of another type. -/
def modItems {T : Type} (item : Nat → T → Except Fault (SfaErr × T × Nat)) :
    Nat → Nat → T → Except Fault (SfaErr × T × Nat)
  | 0, cursor, tbl => .ok (.ok, tbl, cursor)
  | n + 1, cursor, tbl => do
    match ← item cursor tbl with
    | (.ok, tbl, cursor) => modItems item n cursor tbl
    | (.error, tbl, cursor) => return (.error, tbl, cursor)

def ControllApp.setSt (st : Entries hash StMatchEntry.data) (app : ControllApp hash) :
    ControllApp hash :=
  { app with pst := { app.pst with stEntrys := st } }

theorem ControllApp.setSt_appid (st : Entries hash StMatchEntry.data) (app : ControllApp hash) :
    (app.setSt st).appid = app.appid := rfl

def sfaMsgStMod (msg : List Byte) (g : GApps hash) : Except Fault (SfaErr × GApps hash × Nat) := do
  let aid ← net32 msg 8
  if g.islistinit = false then return (.error, g, 8)
  match g.find aid with
  | none => return (.error, g, 8)
  | some app =>
    let count ← net32 msg 12
    let (err, st, cursor) ← modItems (stModItem msg) (intRounds count) 16 app.pst.stEntrys
    return (err, g.modify aid (ControllApp.setSt st) (ControllApp.setSt_appid st), cursor)

/-! ## `sfa_msg_at_mod` -/

def AtMatchEntry.setAction (status : BitVec 32) (act : SfaAction) (e : AtMatchEntry) :
    AtMatchEntry :=
  { e with lastStatus := status, act := act }

theorem AtMatchEntry.setAction_data (status : BitVec 32) (act : SfaAction) (e : AtMatchEntry) :
    (e.setAction status act).data = e.data := rfl

/-- One round of the loop. The type word is compared as loaded, without `ntohl`,
and a deletion that finds its entry leaves the cursor where it was. -/
def atModItem (msg : List Byte) (cursor : Nat) (tbl : Entries hash AtMatchEntry.data) :
    Except Fault (SfaErr × Entries hash AtMatchEntry.data × Nat) := do
  let tmt ← load32 msg cursor
  if tmt = entryAdd then
    let status ← net32 msg (cursor + 12)
    let len ← net32 msg (cursor + 16)
    let data ← copyKey msg (cursor + 20) len (len + 1)
    let actype ← net32 msg (cursor + 4)
    let acparam ← net32 msg (cursor + 8)
    return (.ok, tbl.insert ⟨data, status, actype, acparam⟩, cursor + 20 + len.toNat)
  else if tmt = entryUpdate then
    let status ← net32 msg (cursor + 12)
    let len ← net32 msg (cursor + 16)
    let data ← copyKey msg (cursor + 20) len (len + 1)
    match tbl.first data with
    | none => return (.ok, tbl, cursor + 20 + len.toNat)
    | some _ =>
      let acparam ← net32 msg (cursor + 8)
      let actype ← net32 msg (cursor + 4)
      let act : SfaAction := ⟨actype, acparam⟩
      let tbl := tbl.write data (AtMatchEntry.setAction status act)
        (AtMatchEntry.setAction_data status act)
      return (.ok, tbl, cursor + 20 + len.toNat)
  else if tmt = entryDel then
    let len ← net32 msg (cursor + 16)
    let data ← copyKey msg (cursor + 20) len (len + 1)
    match tbl.first data with
    | none => return (.ok, tbl, cursor + 20 + len.toNat)
    | some _ => return (.ok, tbl.remove data, cursor)
  else return (.error, tbl, cursor)

def ControllApp.setAt (tbl : Entries hash AtMatchEntry.data) (app : ControllApp hash) :
    ControllApp hash :=
  { app with pat := { app.pat with atEntrys := tbl } }

theorem ControllApp.setAt_appid (tbl : Entries hash AtMatchEntry.data) (app : ControllApp hash) :
    (app.setAt tbl).appid = app.appid := rfl

def sfaMsgAtMod (msg : List Byte) (g : GApps hash) : Except Fault (SfaErr × GApps hash × Nat) := do
  let aid ← net32 msg 8
  if g.islistinit = false then return (.error, g, 8)
  match g.find aid with
  | none => return (.error, g, 8)
  | some app =>
    let count ← net32 msg 12
    let (err, tbl, cursor) ← modItems (atModItem msg) count.toNat 16 app.pat.atEntrys
    return (err, g.modify aid (ControllApp.setAt tbl) (ControllApp.setAt_appid tbl), cursor)

end Sdpa.Switch
