import Sdpa.Lib.Endian

/-!
# The messages of `org.sfa.protocol`

The writers put everything in network byte order, one after another. A count is
the size of the list it counts, because every method that extends a list sets
it. That is a field of each class here. Lengths are computed in `short`
arithmetic, and only the header carries them.
-/
namespace Sdpa.Controller

open Sdpa.Lib.Endian

def putInt (w : BitVec 32) : List Byte := beBytes 4 w.toNat
def putLong (w : BitVec 64) : List Byte := beBytes 8 w.toNat
def putShort (w : BitVec 16) : List Byte := beBytes 2 w.toNat

@[simp] theorem putInt_length (w : BitVec 32) : (putInt w).length = 4 := beBytes_length 4 _
@[simp] theorem putLong_length (w : BitVec 64) : (putLong w).length = 8 := beBytes_length 8 _
@[simp] theorem putShort_length (w : BitVec 16) : (putShort w).length = 2 := beBytes_length 2 _

/-! ## Enumerations -/

inductive SFAEventType
  | non | inPort | dlVlan | dlVlanPcp | dlType | nwTos | nwProto | tpSrc | tpDst | tpFlag
  | dlSrc | dlDst | nwSrc | nwDst | metadata | const
  deriving DecidableEq

def SFAEventType.getValue : SFAEventType → BitVec 32
  | .non => 0 | .inPort => 1 | .dlVlan => 2 | .dlVlanPcp => 3
  | .dlType => 4 | .nwTos => 5 | .nwProto => 6 | .tpSrc => 7
  | .tpDst => 8 | .tpFlag => 9 | .dlSrc => 10 | .dlDst => 11
  | .nwSrc => 12 | .nwDst => 13 | .metadata => 14 | .const => 15

inductive SFAEventOp
  | non | isequal | add | sub | bitand | bitor | bitwise | greater | less
  | equalgreater | equalless
  deriving DecidableEq

def SFAEventOp.getValue : SFAEventOp → BitVec 32
  | .non => 0 | .isequal => 1 | .add => 2 | .sub => 3 | .bitand => 4 | .bitor => 5
  | .bitwise => 6 | .greater => 7 | .less => 8 | .equalgreater => 9 | .equalless => 10

inductive ActType
  | non | output | drop | toopenflow | setsrcfield | setdstfield
  deriving DecidableEq

def ActType.getValue : ActType → BitVec 32
  | .non => 0 | .output => 1 | .drop => 2 | .toopenflow => 3
  | .setsrcfield => 4 | .setdstfield => 5

inductive SFAModType
  | add | update | del
  deriving DecidableEq

def SFAModType.getValue : SFAModType → BitVec 32
  | .add => 0 | .update => 1 | .del => 2

/-! ## Table entries -/

/-- `STDATA` with its buffer set, which sets `len_of_buf` with it. -/
structure STDATA where
  status : BitVec 32
  lenOfBuf : BitVec 32
  buffer : List Byte
  len_eq : lenOfBuf = BitVec.ofNat 32 buffer.length

def STDATA.new (stats : BitVec 32) (s : List Byte) : STDATA :=
  ⟨stats, BitVec.ofNat 32 s.length, s, rfl⟩

def STDATA.writeTo (d : STDATA) : List Byte :=
  putInt d.status ++ (putInt d.lenOfBuf ++ d.buffer)

def STDATA.getByteLength (d : STDATA) : BitVec 16 := (4 + 4 + d.lenOfBuf).setWidth 16

structure STTDATA where
  paramlefttype : SFAEventType
  paramleft : BitVec 64
  paramrighttype : SFAEventType
  paramright : BitVec 64
  opt : SFAEventOp
  prestatus : BitVec 32
  nextstatus : BitVec 32
  deriving DecidableEq

def STTDATA.writeTo (d : STTDATA) : List Byte :=
  putInt d.paramlefttype.getValue ++ (putLong d.paramleft ++
    (putInt d.paramrighttype.getValue ++ (putLong d.paramright ++
      (putInt d.opt.getValue ++ (putInt d.prestatus ++ putInt d.nextstatus)))))

def STTDATA.getByteLength (_ : STTDATA) : BitVec 16 := 36

structure SFAAction where
  type : ActType
  param : BitVec 32
  deriving DecidableEq

/-- A dotted address, split into its octets. -/
structure Dotted where
  o₁ : Byte
  o₂ : Byte
  o₃ : Byte
  o₄ : Byte
  deriving DecidableEq

def Dotted.octets (a : Dotted) : List Byte := [a.o₁, a.o₂, a.o₃, a.o₄]

/-- `IPv4.toIPv4Address`, after the string is split: `result |= oct << ((3-i)*8)`. -/
def toIPv4Address (ip : Dotted) : BitVec 32 :=
  (List.range 4).foldl (fun result i =>
    result ||| (ip.octets.getD i 0).setWidth 32 <<< ((3 - i) * 8)) 0

/-- The constructor of `SFAAction` that takes an address. -/
def SFAAction.ofAddress (t : ActType) (ip : Dotted) : SFAAction := ⟨t, toIPv4Address ip⟩

def SFAAction.writeTo (a : SFAAction) : List Byte := putInt a.type.getValue ++ putInt a.param

def SFAAction.getByteLength (_ : SFAAction) : BitVec 16 := 8

/-- `ATDATA` with its action and its buffer set. -/
structure ATDATA where
  act : SFAAction
  status : BitVec 32
  lenOfBuf : BitVec 32
  buffer : List Byte
  len_eq : lenOfBuf = BitVec.ofNat 32 buffer.length

def ATDATA.new (stats : BitVec 32) (s : List Byte) (a : SFAAction) : ATDATA :=
  ⟨a, stats, BitVec.ofNat 32 s.length, s, rfl⟩

def ATDATA.writeTo (d : ATDATA) : List Byte :=
  d.act.writeTo ++ (putInt d.status ++ (putInt d.lenOfBuf ++ d.buffer))

def ATDATA.getByteLength (d : ATDATA) : BitVec 16 :=
  (d.act.getByteLength.setWidth 32 + 4 + 4 + d.lenOfBuf).setWidth 16

/-! ## Tables -/

structure SFASt where
  appid : BitVec 32
  bitmap : BitVec 64
  count : BitVec 32
  stdatas : List STDATA
  count_eq : count = BitVec.ofNat 32 stdatas.length

def SFASt.new : SFASt := ⟨0, 0, 0, [], rfl⟩

def SFASt.setAppid (s : SFASt) (aid : BitVec 32) : SFASt := { s with appid := aid }

def SFASt.setBitmap (s : SFASt) (bp : BitVec 64) : SFASt := { s with bitmap := bp }

def SFASt.addStData (s : SFASt) (stdata : STDATA) : SFASt :=
  { s with
    stdatas := s.stdatas ++ [stdata]
    count := BitVec.ofNat 32 (s.stdatas ++ [stdata]).length
    count_eq := rfl }

def SFASt.writeTo (s : SFASt) : List Byte :=
  putInt s.appid ++ (putLong s.bitmap ++ (putInt s.count ++ s.stdatas.flatMap STDATA.writeTo))

def SFASt.getByteLength (s : SFASt) : BitVec 16 :=
  s.stdatas.foldl (fun len tmp => len + tmp.getByteLength) 0 + (4 + 8 + 4)

structure SFAStt where
  count : BitVec 32
  sttdatas : List STTDATA
  count_eq : count = BitVec.ofNat 32 sttdatas.length

def SFAStt.new : SFAStt := ⟨0, [], rfl⟩

def SFAStt.addSttData (s : SFAStt) (sttdat : STTDATA) : SFAStt where
  sttdatas := s.sttdatas ++ [sttdat]
  count := BitVec.ofNat 32 (s.sttdatas ++ [sttdat]).length
  count_eq := rfl

def SFAStt.writeTo (s : SFAStt) : List Byte :=
  putInt s.count ++ s.sttdatas.flatMap STTDATA.writeTo

def SFAStt.getByteLength (s : SFAStt) : BitVec 16 :=
  s.sttdatas.foldl (fun len tmp => len + tmp.getByteLength) 0 + 4

structure SFAAt where
  bitmap : BitVec 64
  counts : BitVec 32
  atdatas : List ATDATA
  counts_eq : counts = BitVec.ofNat 32 atdatas.length

def SFAAt.new : SFAAt := ⟨0, 0, [], rfl⟩

def SFAAt.setBitmap (s : SFAAt) (bm : BitVec 64) : SFAAt := { s with bitmap := bm }

def SFAAt.addAtData (s : SFAAt) (atdat : ATDATA) : SFAAt :=
  { s with
    atdatas := s.atdatas ++ [atdat]
    counts := BitVec.ofNat 32 (s.atdatas ++ [atdat]).length
    counts_eq := rfl }

def SFAAt.writeTo (s : SFAAt) : List Byte :=
  putLong s.bitmap ++ (putInt s.counts ++ s.atdatas.flatMap ATDATA.writeTo)

/-- Unlike its siblings this sum is kept in an `int`. -/
def SFAAt.getByteLength (s : SFAAt) : BitVec 32 :=
  s.atdatas.foldl (fun len tmp => len + tmp.getByteLength.signExtend 32) 0 + (4 + 8)

/-! ## Messages -/

/-- The fields of `OFMessage` that a message does not compute. -/
structure OFMessage where
  version : BitVec 8 := 4
  xid : BitVec 32 := 0
  deriving DecidableEq

def OFMessage.writeTo (m : OFMessage) (type : BitVec 8) (length : BitVec 16) : List Byte :=
  m.version :: type :: (putShort length ++ putInt m.xid)

@[simp] theorem OFMessage.writeTo_length (m : OFMessage) (type : BitVec 8) (length : BitVec 16) :
    (m.writeTo type length).length = 8 := by
  simp [OFMessage.writeTo]

/-- A `RuntimeException` with its message. -/
structure RuntimeException where
  message : String
  deriving DecidableEq

structure SFACreate where
  header : OFMessage
  stbody : Option SFASt
  sttbody : Option SFAStt
  atbody : Option SFAAt

def SFACreate.new : SFACreate := ⟨{}, none, none, none⟩

def SFACreate.setST (m : SFACreate) (st : SFASt) : SFACreate := { m with stbody := some st }

def SFACreate.setSTT (m : SFACreate) (stt : SFAStt) : SFACreate := { m with sttbody := some stt }

def SFACreate.setAT (m : SFACreate) (tbl : SFAAt) : SFACreate := { m with atbody := some tbl }

def SFACreate.computeLength (m : SFACreate) : Except RuntimeException (BitVec 16) :=
  match m.stbody, m.sttbody, m.atbody with
  | some st, some stt, some tbl =>
    .ok ((st.getByteLength.signExtend 32 + stt.getByteLength.signExtend 32 + tbl.getByteLength
      + 8).setWidth 16)
  | _, _, _ => .error ⟨"SFA CREATE COMPUTE LEN ERROR! "⟩

/-- `OFMessage.writeTo` computes the length before anything is put, so a missing
body is reported there and the check that follows it never fails. -/
def SFACreate.writeTo (m : SFACreate) : Except RuntimeException (List Byte) := do
  let length ← m.computeLength
  match m.stbody, m.sttbody, m.atbody with
  | some st, some stt, some tbl =>
    return m.header.writeTo 90 length ++ (st.writeTo ++ (stt.writeTo ++ tbl.writeTo))
  | _, _, _ => .error ⟨"SFA INIT ERROR! "⟩

/-- `SFAStMod` and `SFAAtMod` differ only in the entries they carry. -/
structure ModMessage (Entry : Type) where
  header : OFMessage
  appid : BitVec 32
  count : BitVec 32
  datas : List (SFAModType × Entry)
  count_eq : count = BitVec.ofNat 32 datas.length

namespace ModMessage

variable {Entry : Type}

def new : ModMessage Entry := ⟨{}, 0, 0, [], rfl⟩

def add (m : ModMessage Entry) (id : BitVec 32) (t : SFAModType) (a : Entry) :
    ModMessage Entry where
  header := m.header
  appid := id
  datas := m.datas ++ [(t, a)]
  count := BitVec.ofNat 32 (m.datas ++ [(t, a)]).length
  count_eq := rfl

def computeLength (byteLength : Entry → BitVec 16) (m : ModMessage Entry) : BitVec 16 :=
  m.datas.foldl (fun len tmp => len + 4 + byteLength tmp.2) 0 + (4 + 4 + 8)

def writeItem (write : Entry → List Byte) (item : SFAModType × Entry) : List Byte :=
  putInt item.1.getValue ++ write item.2

def writeTo (type : BitVec 8) (byteLength : Entry → BitVec 16) (write : Entry → List Byte)
    (m : ModMessage Entry) : List Byte :=
  m.header.writeTo type (m.computeLength byteLength) ++
    (putInt m.appid ++ (putInt m.count ++ m.datas.flatMap (writeItem write)))

/-- Calls for one app list their entries in order. The identifier is the one the
constructor sets until the first call. -/
theorem foldl_add (id : BitVec 32) (calls : List (SFAModType × Entry)) (m : ModMessage Entry) :
    (calls.foldl (fun m call => m.add id call.1 call.2) m).datas = m.datas ++ calls ∧
    (calls.foldl (fun m call => m.add id call.1 call.2) m).appid =
      (if calls = [] then m.appid else id) := by
  induction calls generalizing m with
  | nil => simp
  | cons call calls ih =>
    obtain ⟨hd, ha⟩ := ih (m.add id call.1 call.2)
    rw [List.foldl_cons]
    refine ⟨?_, ?_⟩
    · rw [hd]
      simp [add]
    · rw [ha]
      by_cases hc : calls = []
      · simp [hc, add]
      · simp [hc]

end ModMessage

abbrev SFAStMod := ModMessage STDATA

def SFAStMod.addSTMod (m : SFAStMod) (id : BitVec 32) (t : SFAModType) (a : STDATA) : SFAStMod :=
  m.add id t a

/-- The message to which these calls of `addSTMod` were made, all for one app. -/
def SFAStMod.ofCalls (header : OFMessage) (id : BitVec 32) (calls : List (SFAModType × STDATA)) :
    SFAStMod :=
  calls.foldl (fun m call => SFAStMod.addSTMod m id call.1 call.2)
    { ModMessage.new with header := header }

theorem SFAStMod.ofCalls_datas (header : OFMessage) (id : BitVec 32)
    (calls : List (SFAModType × STDATA)) : (SFAStMod.ofCalls header id calls).datas = calls :=
  (ModMessage.foldl_add id calls _).1

theorem SFAStMod.ofCalls_appid (header : OFMessage) (id : BitVec 32)
    (calls : List (SFAModType × STDATA)) :
    (SFAStMod.ofCalls header id calls).appid = if calls = [] then 0 else id :=
  (ModMessage.foldl_add id calls _).2

def SFAStMod.writeTo (m : SFAStMod) : List Byte :=
  ModMessage.writeTo 91 STDATA.getByteLength STDATA.writeTo m

abbrev SFAAtMod := ModMessage ATDATA

def SFAAtMod.addATMod (m : SFAAtMod) (id : BitVec 32) (t : SFAModType) (a : ATDATA) : SFAAtMod :=
  m.add id t a

/-- The message to which these calls of `addATMod` were made, all for one app. -/
def SFAAtMod.ofCalls (header : OFMessage) (id : BitVec 32) (calls : List (SFAModType × ATDATA)) :
    SFAAtMod :=
  calls.foldl (fun m call => SFAAtMod.addATMod m id call.1 call.2)
    { ModMessage.new with header := header }

theorem SFAAtMod.ofCalls_datas (header : OFMessage) (id : BitVec 32)
    (calls : List (SFAModType × ATDATA)) : (SFAAtMod.ofCalls header id calls).datas = calls :=
  (ModMessage.foldl_add id calls _).1

theorem SFAAtMod.ofCalls_appid (header : OFMessage) (id : BitVec 32)
    (calls : List (SFAModType × ATDATA)) :
    (SFAAtMod.ofCalls header id calls).appid = if calls = [] then 0 else id :=
  (ModMessage.foldl_add id calls _).2

def SFAAtMod.writeTo (m : SFAAtMod) : List Byte :=
  ModMessage.writeTo 92 ATDATA.getByteLength ATDATA.writeTo m

end Sdpa.Controller
