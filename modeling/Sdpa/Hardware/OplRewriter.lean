import Sdpa.Hardware.OplProcessor

/-!
# The second state machine of the output port lookup processor

It follows the first one word by word. A word leaves three words after it was taken, so
that the fields of the header can be replaced on the way out and the checksums be updated
from what was seen by then. The sums have one or two bits more than the checksums, for the
carries, which are added in again after each addition.
-/
namespace Sdpa.Hardware

/-! ## The fields of an action that concern the data of a packet -/

namespace OplAction

variable (a : BitVec 320)

def setDlSrc : BitVec 48 := a.extractLsb' 56 48
def setDlDst : BitVec 48 := a.extractLsb' 104 48
def setNwSrc : BitVec 32 := a.extractLsb' 152 32
def setNwDst : BitVec 32 := a.extractLsb' 184 32
def setNwTos : BitVec 8 := a.extractLsb' 216 8
def setTpSrc : BitVec 16 := a.extractLsb' 224 16
def setTpDst : BitVec 16 := a.extractLsb' 240 16

def ofpatSetDlSrc : BitVec 16 := 0x0010
def ofpatSetDlDst : BitVec 16 := 0x0020
def ofpatSetNwSrc : BitVec 16 := 0x0040
def ofpatSetNwDst : BitVec 16 := 0x0080
def ofpatSetNwTos : BitVec 16 := 0x0100
def ofpatSetTpSrc : BitVec 16 := 0x0200
def ofpatSetTpDst : BitVec 16 := 0x0400

end OplAction

open OplAction

/-! ## Sums -/

/-- `{1'b0, x[15:0]} + {16'h0, x[16]}`. -/
def fold17 (x : BitVec 17) : BitVec 17 :=
  (x.setWidth 16).setWidth 17 + (x.extractLsb' 16 1).setWidth 17

/-- `{2'b00, x[15:0]} + {16'h0, x[17:16]}`. -/
def fold18 (x : BitVec 18) : BitVec 18 :=
  (x.setWidth 16).setWidth 18 + (x.extractLsb' 16 2).setWidth 18

/-- The difference of a field, `~old + new`. -/
def diff (new old : BitVec 16) : BitVec 17 := fold17 (new.setWidth 17 + (~~~old).setWidth 17)

/-! ## The registers -/

inductive PostState where
  | followPrepState | replaceRest
deriving DecidableEq, Repr

inductive TpHdrCntr where
  | wait | odd2 | odd3 | odd4 | odd5 | odd6 | evn2 | evn3 | evn4 | evn5 | evn6
deriving DecidableEq, Repr

inductive IpHdrCntr where
  | rest1 | rest2 | rest3 | stop
deriving DecidableEq, Repr

structure OplRewriter where
  postState : PostState
  tpHdrCntr : TpHdrCntr
  ipHdrCntr : IpHdrCntr
  outData : BitVec 64
  nwSrcHDiff : BitVec 17
  nwSrcLDiff : BitVec 17
  nwSrcDiff : BitVec 17
  nwDstHDiff : BitVec 17
  nwDstLDiff : BitVec 17
  nwDstDiff : BitVec 17
  nwAllDiff : BitVec 17
  nwChksumNew : BitVec 18
  tpSrcDiff : BitVec 17
  tpDstDiff : BitVec 17
  tpChksumOrgInv : BitVec 16
  tpChksumNew : BitVec 17
deriving DecidableEq, Repr

namespace OplProcessor

/-- `out_data_enb`: the words on their way out move on. -/
def outDataEnb (i : OplIn) (s : OplProcessor) : Bool :=
  match s.state with
  | .writeOutputDestination | .hdr1st | .hdrCont | .writePacket => i.outRdy && !i.inFifoEmpty
  | .writeIoHdr | .writeLastWord => i.outRdy
  | _ => false

end OplProcessor

namespace OplRewriter

def init : OplRewriter where
  postState := .followPrepState
  tpHdrCntr := .odd2
  ipHdrCntr := .rest1
  outData := 0
  nwSrcHDiff := 0
  nwSrcLDiff := 0
  nwSrcDiff := 0
  nwDstHDiff := 0
  nwDstLDiff := 0
  nwDstDiff := 0
  nwAllDiff := 0
  nwChksumNew := 0
  tpSrcDiff := 0
  tpDstDiff := 0
  tpChksumOrgInv := 0
  tpChksumNew := 0

/-- A field is written if the action says so. -/
def putIf {w : Nat} (a : BitVec 320) (flag : BitVec 16) (pos : Nat) (x : BitVec w)
    (v : BitVec 64) : BitVec 64 := if hasFlag a flag then putBits pos x v else v

/-- The difference of a field that is written if the action says so. -/
def diffIf (a : BitVec 320) (flag new old : BitVec 16) : BitVec 17 :=
  if hasFlag a flag then diff new old else 0

/-! ## Up to the fifth word of the header

`r` is the state of the registers, `w` the word that is taken and `a` the action. -/

section

variable (a : BitVec 320) (w : BitVec 64) (s : OplProcessor) (r : OplRewriter)

def hdr2nd : OplRewriter :=
  { r with
    nwChksumNew :=
      if hasFlag a ofpatSetNwTos then
        -- Only six bits of the field are used.
        fold18 ((0#10 ++ (setNwTos a).extractLsb' 2 6 ++ 0#2 : BitVec (10 + 6 + 2)) +
          (0xff#10 ++ ~~~(w.extractLsb' 2 6) ++ 3#2 : BitVec (10 + 6 + 2)))
      else 0 }

def hdr4th : OplRewriter :=
  { r with
    outData :=
      putIf a ofpatSetDlSrc 0 ((setDlSrc a).extractLsb' 32 16)
        (putIf a ofpatSetDlDst 16 (setDlDst a) r.outData)
    nwChksumNew := fold18 (r.nwChksumNew + (~~~(w.extractLsb' 48 16)).setWidth 18)
    nwSrcHDiff := diffIf a ofpatSetNwSrc ((setNwSrc a).extractLsb' 16 16) (w.extractLsb' 32 16)
    nwSrcLDiff := diffIf a ofpatSetNwSrc ((setNwSrc a).extractLsb' 0 16) (w.extractLsb' 16 16)
    nwDstHDiff := diffIf a ofpatSetNwDst ((setNwDst a).extractLsb' 16 16) (w.extractLsb' 0 16) }

/-- The ports, or the first one of them, are in this word. -/
def startTp : OplRewriter :=
  if s.ipHdrLen = 5 then
    { r with
      tpSrcDiff := diffIf a ofpatSetTpSrc (setTpSrc a) (w.extractLsb' 32 16)
      tpDstDiff := diffIf a ofpatSetTpDst (setTpDst a) (w.extractLsb' 16 16)
      tpHdrCntr := .odd2 }
  else if s.ipHdrLen = 6 then
    { r with
      tpSrcDiff := diffIf a ofpatSetTpSrc (setTpSrc a) (w.extractLsb' 0 16)
      tpHdrCntr := .evn2 }
  else { r with tpHdrCntr := .wait }

def hdr5th : OplRewriter :=
  let out := putIf a ofpatSetDlSrc 32 ((setDlSrc a).extractLsb' 0 32) r.outData
  startTp a w s
    { r with
      outData := if s.isIp then putIf a ofpatSetNwTos 2 ((setNwTos a).extractLsb' 2 6) out else out
      nwChksumNew := fold18 (r.nwChksumNew + r.nwDstHDiff.setWidth 18)
      nwSrcDiff := fold17 (r.nwSrcLDiff + r.nwSrcHDiff)
      nwDstLDiff := diffIf a ofpatSetNwDst ((setNwDst a).extractLsb' 0 16) (w.extractLsb' 48 16)
      ipHdrCntr := .rest1
      postState := .replaceRest }

/-! ## From the sixth word on -/

def ipRest : OplRewriter :=
  match r.ipHdrCntr with
  | .rest1 =>
    { r with
      nwChksumNew :=
        fold18 (r.nwChksumNew + r.nwDstLDiff.setWidth 18 + r.nwSrcDiff.setWidth 18)
      nwDstDiff := fold17 (r.nwDstLDiff + r.nwDstHDiff)
      ipHdrCntr := .rest2 }
  | .rest2 =>
    let chksum := fold18 r.nwChksumNew
    { r with
      nwChksumNew := chksum
      outData :=
        if s.isIp then
          putIf a ofpatSetNwDst 0 ((setNwDst a).extractLsb' 16 16)
            (putIf a ofpatSetNwSrc 16 (setNwSrc a)
              (putBits 48 (~~~(chksum.setWidth 16)) r.outData))
        else r.outData
      nwAllDiff := fold17 (r.nwDstDiff + r.nwSrcDiff)
      ipHdrCntr := .rest3 }
  | .rest3 =>
    { r with
      outData :=
        if s.isIp then putIf a ofpatSetNwDst 48 ((setNwDst a).extractLsb' 0 16) r.outData
        else r.outData
      ipHdrCntr := .stop }
  | .stop => r

/-- The inverse of the checksum that is in this word. -/
def orgInv (here : Bool) (pos : Nat) : BitVec 16 :=
  if here then ~~~(w.extractLsb' pos 16) else r.tpChksumOrgInv

/-- The ports and the checksum of the transport header; `next` is what `ipRest` leaves. -/
def tpRest (next : OplRewriter) : OplRewriter :=
  let tp := s.isUdp || s.isTcp
  match r.tpHdrCntr with
  | .wait => startTp a w s next
  | .odd2 =>
    { next with
      tpChksumOrgInv := orgInv w r s.isUdp 48
      tpChksumNew := fold17 (r.tpSrcDiff + r.tpDstDiff)
      tpHdrCntr := .odd3 }
  | .odd3 =>
    { next with
      tpChksumOrgInv := orgInv w r s.isTcp 32
      tpChksumNew := fold17 (r.tpChksumNew + (orgInv w r s.isTcp 32).setWidth 17)
      tpHdrCntr := .odd4 }
  | .odd4 =>
    { next with
      tpChksumNew := fold17 (r.tpChksumNew + r.nwAllDiff)
      outData :=
        if tp then
          putIf a ofpatSetTpDst 16 (setTpDst a) (putIf a ofpatSetTpSrc 32 (setTpSrc a) next.outData)
        else next.outData
      tpHdrCntr := .odd5 }
  | .odd5 =>
    if s.isUdp then
      { next with
        outData := putBits 48 (~~~(r.tpChksumNew.setWidth 16)) next.outData
        postState := .followPrepState }
    else { next with tpHdrCntr := .odd6 }
  | .odd6 =>
    { next with
      outData :=
        if s.isTcp then putBits 32 (~~~(r.tpChksumNew.setWidth 16)) next.outData else next.outData
      postState := .followPrepState }
  | .evn2 =>
    { next with
      tpChksumOrgInv := orgInv w r s.isUdp 16
      tpDstDiff := diffIf a ofpatSetTpDst (setTpDst a) (w.extractLsb' 48 16)
      tpHdrCntr := .evn3 }
  | .evn3 =>
    { next with
      tpChksumOrgInv := orgInv w r s.isTcp 0
      tpChksumNew := fold17 (r.tpSrcDiff + r.tpDstDiff)
      tpHdrCntr := .evn4 }
  | .evn4 =>
    { next with
      tpChksumNew := fold17 (r.tpChksumNew + r.tpChksumOrgInv.setWidth 17)
      outData := if tp then putIf a ofpatSetTpSrc 0 (setTpSrc a) next.outData else next.outData
      tpHdrCntr := .evn5 }
  | .evn5 =>
    let chksum := fold17 (r.tpChksumNew + r.nwAllDiff)
    let out := if tp then putIf a ofpatSetTpDst 48 (setTpDst a) next.outData else next.outData
    if s.isUdp then
      { next with
        tpChksumNew := chksum
        outData := putBits 16 (~~~(chksum.setWidth 16)) out
        postState := .followPrepState }
    else { next with tpChksumNew := chksum, outData := out, tpHdrCntr := .evn6 }
  | .evn6 =>
    { next with
      outData :=
        if s.isTcp then putBits 0 (~~~(r.tpChksumNew.setWidth 16)) next.outData else next.outData
      postState := .followPrepState }

end

variable (i : OplIn) (s : OplProcessor) (r : OplRewriter)

/-- The word that leaves, before anything is replaced in it. -/
def moved : OplRewriter :=
  { r with outData := if s.outDataEnb i then s.inFifoDataD3 else r.outData }

def stepFollowPrepState : OplRewriter :=
  let next := { moved i s r with tpHdrCntr := .odd2, ipHdrCntr := .rest1 }
  if s.state = .hdrCont && s.outDataEnb i then
    match s.hdrReplaceCntr with
    | .hdr2nd => hdr2nd i.resultFifoDout.2 i.inFifo.data next
    | .hdr4th => hdr4th i.resultFifoDout.2 i.inFifo.data next
    | .hdr5th => hdr5th i.resultFifoDout.2 i.inFifo.data s next
    | .hdr3rd | .hdr6th => next
  else next

def stepReplaceRest : OplRewriter :=
  if s.state = .writeReplacements then { moved i s r with postState := .followPrepState }
  else if s.outDataEnb i then
    tpRest i.resultFifoDout.2 i.inFifo.data s r (ipRest i.resultFifoDout.2 s (moved i s r))
  else moved i s r

def step : OplRewriter :=
  if i.reset then init
  else
    match r.postState with
    | .followPrepState => stepFollowPrepState i s r
    | .replaceRest => stepReplaceRest i s r

end OplRewriter

/-! ## Both state machines -/

structure Opl where
  proc : OplProcessor
  post : OplRewriter
deriving DecidableEq, Repr

namespace Opl

def init : Opl := ⟨.init, .init⟩

def step (i : OplIn) (s : Opl) : Opl := ⟨s.proc.step i, s.post.step i s.proc⟩

/-- `{out_ctrl, out_data}`. -/
def out (s : Opl) : Word := ⟨s.proc.outCtrl, s.post.outData⟩

end Opl

end Sdpa.Hardware
