import Mathlib.Data.List.Find
import Mathlib.Data.Nat.Log
import Mathlib.Logic.Function.Basic
import Sdpa.Lib.Clocked

/-!
# The lookup tables

`unencoded_cam_lut_sm`, `at_unencoded_cam_lut_sm` and `st_unencoded_cam_lut_sm`
with the `tcam_parallel_matcher` that each of them is wired to. A lookup goes
through four registers: the keys are compared in the cycle of the request, the
data of the entry found are read three cycles later, and the answer is at the
outputs in the cycle after. Entries are written by reset, by the register bus
and, in the state table, by the update port.

Left out are `cam_busy`, which is constantly low, and `lookup_cmp_dmask` and
`update_done`, which nothing reads.
-/
namespace Sdpa.Hardware

open Lib.Clocked

/-- The wires of the register bus. -/
structure RegBus where
  req : Bool
  ack : Bool
  rdWrL : Bool
  addr : BitVec 23
  data : BitVec 32
  src : BitVec 2
deriving DecidableEq, Repr

/-- A request on the bus is a read. -/
def RegBus.Reads (b : RegBus) : Prop := b.req = true → b.rdWrL = true

/-- `log2` of the sources: the width of an address below `number`. -/
def log2 (number : Nat) : Nat := Nat.clog 2 number

def ceildiv (num divisor : Nat) : Nat :=
  if num ≤ divisor then 1
  else if num / divisor * divisor < num then num / divisor + 1
  else num / divisor

/-- A line of the table, `{cam_data_mask, cam_din, lut_wr_data}`. -/
structure Entry (c d : Nat) where
  dmask : BitVec c
  cmp : BitVec c
  data : BitVec d
deriving DecidableEq, Repr

variable {c d : Nat}

/-- `&((cmp_din ^~ cam_data) | cam_data_mask)`. -/
def Entry.hits (e : Entry c d) (key : BitVec c) : Bool :=
  (~~~(key ^^^ e.cmp) ||| e.dmask) = BitVec.allOnes c

/-- The parameters that differ between the tables; `resetEntry n` is what reset writes to line
`n`. -/
structure TableParams (c d : Nat) where
  lutDepth : Nat
  tag : BitVec 13
  resetEntry : Nat → Entry c d

def unencodedCamLutSm (lutDepth : Nat) (tag : BitVec 13) : TableParams c d :=
  ⟨lutDepth, tag, fun _ => ⟨0, 0, 0⟩⟩

/-- Also the parameters of `st_unencoded_cam_lut_sm`, which adds the update port. -/
def atUnencodedCamLutSm (lutDepth : Nat) (tag : BitVec 13) (defaultCmpData : BitVec c)
    (defaultLookupData : BitVec d) : TableParams c d :=
  ⟨lutDepth, tag, fun n => if n = 1 then ⟨0, defaultCmpData, defaultLookupData⟩ else ⟨0, 0, 0⟩⟩

inductive RegState where
  | waitForRequest | waitForReadAck | waitForWriteAck
deriving DecidableEq, Repr

/-- The registers of the bus side. -/
structure TableRegs where
  regOut : RegBus
  rdReq : Bool
  wrReq : Bool
  regState : RegState
  wrAddr : Nat
  rdAddr : Nat
  regFile : Nat → BitVec 32

inductive TableState where
  | reset | ready
deriving DecidableEq, Repr

/-- The registers of the lookup side. -/
structure TablePipe (c d : Nat) where
  lookupLatched : Bool
  camMatchFound : Bool
  camLookupDone : Bool
  rdReqLatched : Bool
  lookupAck : Bool
  lookupHit : Bool
  camWe : Bool
  camWrAddr : Nat
  camDin : BitVec c
  camDataMask : BitVec c
  lutWrData : BitVec d
  wrAck : Bool
  rdAck : Bool
  state : TableState
  lookupAddress : Nat
  resetCount : Nat
  camMatchUnencodedAddr : Nat → Bool
  camMatchEncoded : Bool
  camMatchFoundD1 : Bool
  lutRdAddr : Nat
  lutRdData : Entry c d

/-- A table with its matcher. -/
structure LookupTable (c d : Nat) where
  regs : TableRegs
  pipe : TablePipe c d
  lut : Nat → Entry c d
  matchAddrUnencodedReg : Nat → Bool

structure TableIn (c : Nat) where
  lookupReq : Bool
  lookupCmpData : BitVec c
  regIn : RegBus
  tableFlush : Bool
  reset : Bool

namespace LookupTable

variable (p : TableParams c d) (i : TableIn c) (s : LookupTable c d)

/-! ## Registers -/

def numDataWordsUsed (d : Nat) : Nat := ceildiv d 32

def numCmpWordsUsed (c : Nat) : Nat := ceildiv c 32

def numRegsUsed (c d : Nat) : Nat :=
  2 + numDataWordsUsed d + numCmpWordsUsed c + numCmpWordsUsed c

def readAddr (c d : Nat) : Nat := numRegsUsed c d - 2

def writeAddr (c d : Nat) : Nat := readAddr c d + 1

/-- `count` words of the register file from `base` on, the first in the low bits. -/
def regWords (regFile : Nat → BitVec 32) (base count : Nat) (width : Nat) : BitVec width :=
  (List.range count).foldl (fun w k => w ||| (regFile (base + k)).setWidth width <<< (32 * k)) 0

/-- What a write puts into the table. -/
def wrEntry (regFile : Nat → BitVec 32) : Entry c d where
  data := regWords regFile 0 (numDataWordsUsed d) d
  dmask := regWords regFile (numDataWordsUsed d) (numCmpWordsUsed c) c
  cmp := regWords regFile (numCmpWordsUsed c + numDataWordsUsed d) (numCmpWordsUsed c) c

/-- The register file with an entry that was read. -/
def rdEntry (e : Entry c d) (regFile : Nat → BitVec 32) (n : Nat) : BitVec 32 :=
  let nd := numDataWordsUsed d
  let nc := numCmpWordsUsed c
  if n < nd then e.data.extractLsb' (32 * n) 32
  else if n < nc + nd then e.dmask.extractLsb' (32 * (n - nd)) 32
  else if n < nc + nc + nd then e.cmp.extractLsb' (32 * (n - nc - nd)) 32
  else regFile n

def addr : Nat := (i.regIn.addr.setWidth 10).toNat

def addrGood (c d : Nat) (i : TableIn c) : Bool := addr i < numRegsUsed c d

def tagHit : Bool := i.regIn.addr.extractLsb' 10 13 = p.tag

def tableAddr (w : BitVec 32) : Nat := w.toNat % 2 ^ log2 p.lutDepth

def stepRegs : TableRegs :=
  if i.reset then
    { regOut := ⟨false, false, false, 0, 0, 0⟩, rdReq := false, wrReq := false
      regState := .waitForRequest, wrAddr := 0, rdAddr := 0, regFile := fun _ => 0 }
  else
    match s.regs.regState with
    | .waitForRequest =>
      if addrGood c d i && tagHit p i && i.regIn.req then
        if !i.regIn.rdWrL && addr i == readAddr c d then
          { s.regs with
            regOut := { i.regIn with req := false, ack := false }
            rdReq := true, wrReq := false, regState := .waitForReadAck
            rdAddr := tableAddr p i.regIn.data
            regFile := Function.update s.regs.regFile (readAddr c d) i.regIn.data }
        else if !i.regIn.rdWrL && addr i == writeAddr c d then
          { s.regs with
            regOut := { i.regIn with req := false, ack := false }
            rdReq := false, wrReq := true, regState := .waitForWriteAck
            wrAddr := tableAddr p i.regIn.data }
        else if i.regIn.rdWrL then
          { s.regs with
            regOut := { i.regIn with ack := true, data := s.regs.regFile (addr i) }
            rdReq := false, wrReq := false }
        else
          { s.regs with
            regOut := { i.regIn with ack := true }
            rdReq := false, wrReq := false
            regFile := Function.update s.regs.regFile (addr i) i.regIn.data }
      else { s.regs with regOut := i.regIn, rdReq := false, wrReq := false }
    | .waitForReadAck =>
      if s.pipe.rdAck then
        { s.regs with
          regOut := { s.regs.regOut with req := true, ack := true }
          rdReq := false, wrReq := false, regState := .waitForRequest
          regFile := rdEntry s.pipe.lutRdData s.regs.regFile }
      else
        { s.regs with
          regOut := { s.regs.regOut with req := false, ack := false }, rdReq := true, wrReq := false }
    | .waitForWriteAck =>
      if s.pipe.wrAck then
        { s.regs with
          regOut := { s.regs.regOut with req := true, ack := true }
          rdReq := false, wrReq := false, regState := .waitForRequest }
      else
        { s.regs with
          regOut := { s.regs.regOut with req := false, ack := false }, rdReq := false, wrReq := true }

/-! ## Lookups -/

/-- `|match_addr_unencoded_reg`. -/
def camMatch : Bool := (List.range p.lutDepth).any s.matchAddrUnencodedReg

/-- The loop counts down, so that the lowest line stays. -/
def camMatchEncodedAddr : Nat :=
  (List.range (p.lutDepth - 1)).foldr
    (fun n a => if s.pipe.camMatchUnencodedAddr n then n else a) (p.lutDepth - 1)

/-- `reset || table_flush`. -/
def clearPipe (pipe : TablePipe c d) : TablePipe c d :=
  { pipe with
    lookupLatched := false, camMatchFound := false, camLookupDone := false, rdReqLatched := false
    lookupAck := false, lookupHit := false, camWe := false, camWrAddr := 0, camDin := 0
    camDataMask := 0, wrAck := false, rdAck := false, state := .reset, lookupAddress := 0
    resetCount := 0, camMatchUnencodedAddr := fun _ => false, camMatchEncoded := false
    camMatchFoundD1 := false }

/-- A cycle in state `RESET`: line after line is written. -/
def resetCycle (pipe : TablePipe c d) : TablePipe c d :=
  let pipe := { pipe with
    lookupLatched := false, camMatchFound := false, camLookupDone := false, rdReqLatched := false
    lookupAck := false, lookupHit := false, camWe := false, camDin := 0, camDataMask := 0
    wrAck := false, rdAck := false }
  if pipe.resetCount = p.lutDepth then { pipe with state := .ready }
  else
    { pipe with
      resetCount := pipe.resetCount + 1, camWe := true
      camWrAddr := pipe.resetCount % 2 ^ log2 p.lutDepth
      camDataMask := (p.resetEntry pipe.resetCount).dmask
      camDin := (p.resetEntry pipe.resetCount).cmp
      lutWrData := (p.resetEntry pipe.resetCount).data }

/-- A write waits until no lookup is in the stages that compare keys. -/
def grantsWrite : Bool :=
  s.regs.wrReq && !s.pipe.lookupLatched && !s.pipe.camMatchFound && !s.pipe.camMatchFoundD1

/-- A cycle in state `READY`. -/
def lookupCycle : TablePipe c d where
  lookupLatched := i.lookupReq
  camMatchFound := s.pipe.lookupLatched && camMatch p s
  camLookupDone := s.pipe.lookupLatched
  camMatchUnencodedAddr := s.matchAddrUnencodedReg
  camMatchEncoded := s.pipe.camLookupDone
  camMatchFoundD1 := s.pipe.camMatchFound
  lutRdAddr :=
    if !s.pipe.camMatchFound && s.regs.rdReq then s.regs.rdAddr else camMatchEncodedAddr p s
  rdReqLatched := !s.pipe.camMatchFound && s.regs.rdReq
  lookupAck := s.pipe.camMatchEncoded
  lookupHit := s.pipe.camMatchFoundD1
  lutRdData := s.lut s.pipe.lutRdAddr
  lookupAddress := s.pipe.lutRdAddr
  rdAck := s.pipe.rdReqLatched
  camWe := grantsWrite s
  wrAck := grantsWrite s
  camWrAddr := if grantsWrite s then s.regs.wrAddr else s.pipe.camWrAddr
  camDin := if grantsWrite s then (wrEntry s.regs.regFile : Entry c d).cmp else 0
  camDataMask := if grantsWrite s then (wrEntry s.regs.regFile : Entry c d).dmask else 0
  lutWrData :=
    if grantsWrite s then (wrEntry s.regs.regFile : Entry c d).data else s.pipe.lutWrData
  state := .ready
  resetCount := s.pipe.resetCount

def stepPipe : TablePipe c d :=
  if i.reset || i.tableFlush then clearPipe s.pipe
  else
    match s.pipe.state with
    | .reset => resetCycle p s.pipe
    | .ready => lookupCycle p i s

def stepLut : Nat → Entry c d :=
  if s.pipe.camWe then
    Function.update s.lut s.pipe.camWrAddr ⟨s.pipe.camDataMask, s.pipe.camDin, s.pipe.lutWrData⟩
  else s.lut

def step : LookupTable c d where
  regs := stepRegs p i s
  pipe := stepPipe p i s
  lut := stepLut s
  matchAddrUnencodedReg := fun n => (s.lut n).hits i.lookupCmpData

/-- The answer; `DEFAULT_DATA` is zero in every instance. -/
def lookupData : BitVec d :=
  if s.pipe.lookupHit && s.pipe.lookupAck then s.pipe.lutRdData.data else 0

/-- The lowest line that matches. -/
def find (lut : Nat → Entry c d) (key : BitVec c) : Option Nat :=
  (List.range p.lutDepth).find? fun n => (lut n).hits key

/-- The data of that line, zero without one. -/
def lookup (lut : Nat → Entry c d) (key : BitVec c) : BitVec d :=
  match find p lut key with
  | some n => (lut n).data
  | none => 0

end LookupTable

/-! ## The update port of the state table -/

structure Update (d : Nat) where
  req : Bool
  addr : Nat
  nextState : BitVec d
  vld : Bool

/-- Both lines of the pair are written back, with the next state or as they were. -/
def Update.apply (u : Update d) (old lut : Nat → Entry c d) : Nat → Entry c d :=
  let line (n : Nat) : Entry c d := if u.vld then { old n with data := u.nextState } else old n
  let addr0 := 2 * (u.addr / 2)
  let addr1 := 2 * (u.addr / 2) + 1
  if u.req then Function.update (Function.update lut addr0 (line addr0)) addr1 (line addr1) else lut

/-- A write of the bus in the same cycle comes first in the source. -/
def StateTable.step (p : TableParams c d) (i : TableIn c) (u : Update d) (s : LookupTable c d) :
    LookupTable c d :=
  { LookupTable.step p i s with lut := u.apply s.lut (LookupTable.stepLut s) }

/-! ## What a lookup finds -/

namespace LookupTable

variable {p : TableParams c d} {lut : Nat → Entry c d} {key : BitVec c}

theorem foldr_lowest (f : Nat → Bool) (b : Nat) (l : List Nat) :
    l.foldr (fun n a => if f n then n else a) b = (l.find? f).getD b := by
  induction l with
  | nil => rfl
  | cons n l ih =>
    cases hn : f n with
    | true => simp [hn]
    | false => simpa [hn] using ih

theorem camMatch_eq {s : LookupTable c d}
    (hreg : s.matchAddrUnencodedReg = fun n => (lut n).hits key) :
    camMatch p s = (find p lut key).isSome := by
  rw [camMatch, hreg, find, Bool.eq_iff_iff, List.any_eq_true, List.find?_isSome]

theorem camMatchEncodedAddr_eq {s : LookupTable c d} {n : Nat}
    (haddr : s.pipe.camMatchUnencodedAddr = fun n => (lut n).hits key)
    (hfind : find p lut key = some n) : camMatchEncodedAddr p s = n := by
  rw [camMatchEncodedAddr, haddr, foldr_lowest]
  rw [find] at hfind
  cases hdepth : p.lutDepth with
  | zero => simp [hdepth] at hfind
  | succ m =>
    rw [hdepth, List.range_succ, List.find?_append] at hfind
    rw [Nat.add_sub_cancel]
    cases hlow : (List.range m).find? fun n => (lut n).hits key with
    | some k => simpa [hlow] using hfind
    | none =>
      simp only [hlow, Option.none_or] at hfind
      exact (List.mem_singleton.mp (List.mem_of_find?_eq_some hfind)).symm

theorem lookup_of_find {n : Nat} (h : find p lut key = some n) :
    lookup p lut key = (lut n).data := by rw [lookup, h]

theorem find_of_hits (hdepth : 0 < p.lutDepth) (h : (lut 0).hits key = true) :
    find p lut key = some 0 := by
  rw [find, List.find?_range_eq_some]
  exact ⟨h, List.mem_range.mpr hdepth, fun j hj => by omega⟩

/-- A line that compares nothing is found with every key. -/
theorem find_of_dmask (hdepth : 0 < p.lutDepth) (h : (lut 0).dmask = BitVec.allOnes c)
    (key : BitVec c) : find p lut key = some 0 := by
  refine find_of_hits hdepth ?_
  rw [Entry.hits, h, BitVec.or_allOnes]
  exact decide_eq_true rfl

/-- Only keys and masks decide what is found. -/
theorem find_congr {lut' : Nat → Entry c d}
    (h : ∀ n, n < p.lutDepth → (lut n).cmp = (lut' n).cmp ∧ (lut n).dmask = (lut' n).dmask) :
    find p lut key = find p lut' key := by
  refine List.find?_congr fun n hn => ?_
  obtain ⟨hcmp, hmask⟩ := h n (List.mem_range.mp hn)
  rw [Entry.hits, Entry.hits, hcmp, hmask]

end LookupTable

/-! ## Lookups in a running table -/

namespace LookupTable

/-- The trajectory of a table past its initialisation, whatever is written to it. -/
structure Serves (p : TableParams c d) (i : Nat → TableIn c) (s : Nat → LookupTable c d) :
    Prop where
  regs : ∀ t, (s (t + 1)).regs = stepRegs p (i t) (s t)
  pipe : ∀ t, (s (t + 1)).pipe = stepPipe p (i t) (s t)
  cam : ∀ t, (s (t + 1)).matchAddrUnencodedReg = fun n => ((s t).lut n).hits (i t).lookupCmpData
  reset : ∀ t, (i t).reset = false
  tableFlush : ∀ t, (i t).tableFlush = false
  ready : (s 0).pipe.state = .ready

namespace Serves

variable {p : TableParams c d} {i : Nat → TableIn c} {s : Nat → LookupTable c d}

theorem state_eq_ready (h : Serves p i s) (t : Nat) : (s t).pipe.state = .ready := by
  induction t with
  | zero => exact h.ready
  | succ t ih =>
    rw [h.pipe t, stepPipe, h.reset t, h.tableFlush t, ih]
    rfl

theorem pipe_succ (h : Serves p i s) (t : Nat) : (s (t + 1)).pipe = lookupCycle p (i t) (s t) := by
  rw [h.pipe t, stepPipe, h.reset t, h.tableFlush t, h.state_eq_ready t]
  rfl

/-! The stages of a request made in cycle `t`. -/

theorem latched (h : Serves p i s) (t : Nat) :
    (s (t + 1)).pipe.lookupLatched = (i t).lookupReq := by rw [h.pipe_succ t]; rfl

theorem lookupDone (h : Serves p i s) (t : Nat) :
    (s (t + 2)).pipe.camLookupDone = (i t).lookupReq := by
  rw [h.pipe_succ (t + 1)]
  exact h.latched t

theorem encoded (h : Serves p i s) (t : Nat) :
    (s (t + 3)).pipe.camMatchEncoded = (i t).lookupReq := by
  rw [h.pipe_succ (t + 2)]
  exact h.lookupDone t

theorem ack (h : Serves p i s) (t : Nat) : (s (t + 4)).pipe.lookupAck = (i t).lookupReq := by
  rw [h.pipe_succ (t + 3)]
  exact h.encoded t

theorem matchFound (h : Serves p i s) (t : Nat) :
    (s (t + 2)).pipe.camMatchFound =
      ((i t).lookupReq && (find p (s t).lut (i t).lookupCmpData).isSome) := by
  rw [h.pipe_succ (t + 1)]
  show ((s (t + 1)).pipe.lookupLatched && camMatch p (s (t + 1))) = _
  rw [h.latched t, camMatch_eq (h.cam t)]

theorem hit (h : Serves p i s) (t : Nat) :
    (s (t + 4)).pipe.lookupHit =
      ((i t).lookupReq && (find p (s t).lut (i t).lookupCmpData).isSome) := by
  rw [h.pipe_succ (t + 3)]
  show (s (t + 3)).pipe.camMatchFoundD1 = _
  rw [h.pipe_succ (t + 2)]
  exact h.matchFound t

theorem rdAddr (h : Serves p i s) {t n : Nat} (hreq : (i t).lookupReq = true)
    (hfind : find p (s t).lut (i t).lookupCmpData = some n) :
    (s (t + 3)).pipe.lutRdAddr = n := by
  have hfound : (s (t + 2)).pipe.camMatchFound = true := by
    rw [h.matchFound t, hreq, hfind]
    rfl
  have haddr : (s (t + 2)).pipe.camMatchUnencodedAddr =
      fun n => ((s t).lut n).hits (i t).lookupCmpData := by
    rw [h.pipe_succ (t + 1)]
    exact h.cam t
  rw [h.pipe_succ (t + 2)]
  show (if !(s (t + 2)).pipe.camMatchFound && _ then _ else camMatchEncodedAddr p _) = n
  rw [hfound]
  exact camMatchEncodedAddr_eq haddr hfind

/-- A request that finds line `n`: the answer is the data that the line has three cycles after
the request. -/
theorem answer_of_find (h : Serves p i s) {t n : Nat} (hreq : (i t).lookupReq = true)
    (hfind : find p (s t).lut (i t).lookupCmpData = some n) :
    (s (t + 4)).pipe.lookupHit = true ∧ (s (t + 4)).pipe.lookupAddress = n ∧
      lookupData (s (t + 4)) = ((s (t + 3)).lut n).data := by
  have hhit : (s (t + 4)).pipe.lookupHit = true := by rw [h.hit t, hreq, hfind]; rfl
  have haddr := h.rdAddr hreq hfind
  refine ⟨hhit, ?_, ?_⟩
  · rw [h.pipe_succ (t + 3)]
    exact haddr
  · have hdata : (s (t + 4)).pipe.lutRdData = (s (t + 3)).lut (s (t + 3)).pipe.lutRdAddr := by
      rw [h.pipe_succ (t + 3)]
      rfl
    rw [lookupData, hhit, h.ack t, hreq, hdata, haddr]
    rfl

theorem answer_of_miss (h : Serves p i s) {t : Nat}
    (hfind : find p (s t).lut (i t).lookupCmpData = none) :
    (s (t + 4)).pipe.lookupHit = false ∧ lookupData (s (t + 4)) = 0 := by
  have hhit : (s (t + 4)).pipe.lookupHit = false := by rw [h.hit t, hfind]; simp
  exact ⟨hhit, by rw [lookupData, hhit]; rfl⟩

/-- A request to a table that does not change until its data are read. -/
theorem answer (h : Serves p i s) {t : Nat} {lut : Nat → Entry c d} {key : BitVec c}
    (hreq : (i t).lookupReq = true) (hkey : (i t).lookupCmpData = key) (hlut : (s t).lut = lut)
    (hlut' : (s (t + 3)).lut = lut) :
    (s (t + 4)).pipe.lookupHit = (find p lut key).isSome ∧
      lookupData (s (t + 4)) = lookup p lut key := by
  subst hkey hlut
  cases hfind : find p (s t).lut (i t).lookupCmpData with
  | none =>
    obtain ⟨hhit, hdata⟩ := h.answer_of_miss hfind
    exact ⟨hhit, by rw [hdata, lookup, hfind]⟩
  | some n =>
    obtain ⟨hhit, -, hdata⟩ := h.answer_of_find hreq hfind
    exact ⟨hhit, by rw [hdata, lookup, hfind, hlut']⟩

end Serves

/-- No lookup is under way. -/
structure Drained (pipe : TablePipe c d) : Prop where
  latched : pipe.lookupLatched = false
  lookupDone : pipe.camLookupDone = false
  encoded : pipe.camMatchEncoded = false
  ack : pipe.lookupAck = false

theorem Serves.ack_eq_ago {p : TableParams c d} {i : Nat → TableIn c} {s : Nat → LookupTable c d}
    (h : Serves p i s) (hstart : Drained (s 0).pipe) (t : Nat) :
    (s t).pipe.lookupAck = ago 4 (fun u => (i u).lookupReq) t := by
  have hlatched := eq_ago_succ (p := fun u => (i u).lookupReq) (n := 0)
    (q := fun t => (s t).pipe.lookupLatched) hstart.latched fun t => by
      rw [ago_zero]
      exact h.latched t
  have hdone := eq_ago_succ (q := fun t => (s t).pipe.camLookupDone) hstart.lookupDone fun t => by
    rw [← hlatched t, h.pipe_succ t]
    rfl
  have hencoded := eq_ago_succ (q := fun t => (s t).pipe.camMatchEncoded) hstart.encoded fun t => by
    rw [← hdone t, h.pipe_succ t]
    rfl
  refine eq_ago_succ (q := fun t => (s t).pipe.lookupAck) hstart.ack (fun t => ?_) t
  rw [← hencoded t, h.pipe_succ t]
  rfl

/-! ## Tables that the bus does not write -/

/-- Nothing of a write is under way. -/
structure Unwritten (s : LookupTable c d) : Prop where
  waits : s.regs.regState = .waitForRequest
  wrReq : s.regs.wrReq = false
  camWe : s.pipe.camWe = false
  reads : s.regs.regOut.Reads

theorem stepLut_of_unwritten {s : LookupTable c d} (h : Unwritten s) : stepLut s = s.lut := by
  rw [stepLut, h.camWe]
  rfl

/-- An initialised table with the given lines, and nothing under way. -/
def start (lut : Nat → Entry c d) : LookupTable c d where
  regs := ⟨⟨false, false, false, 0, 0, 0⟩, false, false, .waitForRequest, 0, 0, fun _ => 0⟩
  pipe := ⟨false, false, false, false, false, false, false, 0, 0, 0, 0, false, false, .ready, 0, 0,
    fun _ => false, false, false, 0, ⟨0, 0, 0⟩⟩
  lut := lut
  matchAddrUnencodedReg := fun _ => false

theorem unwritten_start (lut : Nat → Entry c d) : Unwritten (start lut) :=
  ⟨rfl, rfl, rfl, fun h => by cases h⟩

theorem stepRegs_of_reads {p : TableParams c d} {i : TableIn c} {s : LookupTable c d}
    (hreset : i.reset = false) (hwaits : s.regs.regState = .waitForRequest)
    (hreads : i.regIn.Reads) :
    (stepRegs p i s).regState = .waitForRequest ∧ (stepRegs p i s).wrReq = false ∧
      (stepRegs p i s).regOut.Reads := by
  rw [stepRegs, hreset, hwaits]
  rw [RegBus.Reads] at hreads
  cases hreq : i.regIn.req with
  | false => simp [RegBus.Reads, hreq, hwaits]
  | true =>
    rw [hreads hreq]
    cases addrGood c d i && tagHit p i <;> simp [RegBus.Reads, hreads hreq, hwaits]

/-- A bus without requests is passed on. -/
theorem stepRegs_of_idle {p : TableParams c d} {i : TableIn c} {s : LookupTable c d}
    (hreset : i.reset = false) (hwaits : s.regs.regState = .waitForRequest)
    (hidle : i.regIn.req = false) :
    (stepRegs p i s).regState = .waitForRequest ∧ (stepRegs p i s).regOut = i.regIn := by
  rw [stepRegs, hreset, hwaits, hidle, Bool.and_false]
  exact ⟨hwaits, rfl⟩

theorem Serves.unwritten {p : TableParams c d} {i : Nat → TableIn c} {s : Nat → LookupTable c d}
    (h : Serves p i s) (hreads : ∀ t, (i t).regIn.Reads) (hstart : Unwritten (s 0)) (t : Nat) :
    Unwritten (s t) := by
  induction t with
  | zero => exact hstart
  | succ t ih =>
    obtain ⟨hwaits, hwrReq, hout⟩ := stepRegs_of_reads (p := p) (h.reset t) ih.waits (hreads t)
    rw [← h.regs t] at hwaits hwrReq hout
    refine ⟨hwaits, hwrReq, ?_, hout⟩
    rw [h.pipe_succ t]
    show grantsWrite (s t) = false
    rw [grantsWrite, ih.wrReq]
    rfl

end LookupTable

end Sdpa.Hardware
