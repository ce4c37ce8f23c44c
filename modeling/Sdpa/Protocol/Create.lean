import Sdpa.Protocol.Wire
import Sdpa.Switch.Hash

/-!
# A create message from controller to switch

The three loops of `sfa_msg_init` over the three lists of `SFACreate`. Each loop
lemma carries what remains of the message through the induction on its list,
so that the next loop starts where the previous one stopped.
-/
namespace Sdpa.Protocol

open Sdpa.Lib.Endian
open Sdpa.Controller
open Sdpa.Switch

variable {hash : Key → BitVec 32}

/-! ## The entries that the records stand for -/

def stEntryOf (d : STDATA) : StMatchEntry := ⟨d.buffer, d.status⟩

def sttEntryOf (d : STTDATA) : SttMatchEntry where
  paramLeftType := d.paramlefttype.getValue
  paramLeft := d.paramleft
  oprator := d.opt.getValue
  paramRightType := d.paramrighttype.getValue
  paramRight := d.paramright
  lastStatus := d.prestatus
  curStatus := d.nextstatus

def sfaActionOf (a : SFAAction) : SfaAction := ⟨a.type.getValue, a.param⟩

def atEntryOf (d : ATDATA) : AtMatchEntry := ⟨d.buffer, d.status, sfaActionOf d.act⟩

/-! ## The state table -/

section

variable {msg rest : List Byte} {off : Nat}

theorem readStData {d : STDATA} (hmsg : msg.length < 65536) (hn : 0 ∉ d.buffer)
    (h : Remaining msg off (d.writeTo ++ rest)) :
    net32 msg off = .ok d.status ∧ net32 msg (off + 4) = .ok d.lenOfBuf ∧
    copyKey msg (off + 8) d.lenOfBuf (d.lenOfBuf + 1) = .ok d.buffer ∧
    Remaining msg (off + 8 + d.lenOfBuf.toNat) rest := by
  simp only [STDATA.writeTo, List.append_assoc] at h
  have h4 := remaining_int h
  have h8 := remaining_int h4
  have hl : d.buffer.length < 65536 := by
    have hlen := h8.length_eq
    rw [List.length_append] at hlen
    omega
  exact ⟨net32_putInt h, net32_putInt h4, copyKey_succ h8 hn hl d.len_eq,
    remaining_key h8 hl d.len_eq⟩

theorem initStEntrys_written (hmsg : msg.length < 65536) {ds : List STDATA}
    (hn : ∀ d ∈ ds, 0 ∉ d.buffer) (h : Remaining msg off (ds.flatMap STDATA.writeTo ++ rest))
    (st : Entries hash StMatchEntry.data) :
    ∃ st' off', initStEntrys msg ds.length off st = .ok (st', off') ∧
      (st'.entries : Multiset StMatchEntry) = ↑(ds.map stEntryOf) + ↑st.entries ∧
      Remaining msg off' rest := by
  induction ds generalizing off st with
  | nil => exact ⟨st, off, rfl, by simp, h⟩
  | cons d ds ih =>
    rw [List.flatMap_cons, List.append_assoc] at h
    obtain ⟨hstatus, hlen, hdata, hnext⟩ := readStData hmsg (hn d List.mem_cons_self) h
    obtain ⟨st', off', hrun, hentries, hrest⟩ :=
      ih (fun x hx => hn x (List.mem_cons_of_mem d hx)) hnext (st.insert (stEntryOf d))
    refine ⟨st', off', ?_, ?_, hrest⟩
    · rw [List.length_cons, initStEntrys, hstatus]
      simp only [bind, Except.bind, hlen, hdata]
      exact hrun
    · rw [hentries, Entries.entries_insert, List.map_cons, ← Multiset.cons_coe,
        Multiset.add_cons, Multiset.cons_add]

/-! ## The transition table -/

theorem readSttData {d : STTDATA} (h : Remaining msg off (d.writeTo ++ rest)) :
    net32 msg off = .ok d.paramlefttype.getValue ∧ net64 msg (off + 4) = .ok d.paramleft ∧
    net32 msg (off + 12) = .ok d.paramrighttype.getValue ∧
    net64 msg (off + 16) = .ok d.paramright ∧ net32 msg (off + 24) = .ok d.opt.getValue ∧
    net32 msg (off + 28) = .ok d.prestatus ∧ net32 msg (off + 32) = .ok d.nextstatus ∧
    Remaining msg (off + 36) rest := by
  simp only [STTDATA.writeTo, List.append_assoc] at h
  have h4 := remaining_int h
  have h12 := remaining_long h4
  have h16 := remaining_int h12
  have h24 := remaining_long h16
  have h28 := remaining_int h24
  have h32 := remaining_int h28
  exact ⟨net32_putInt h, net64_putLong h4, net32_putInt h12, net64_putLong h16,
    net32_putInt h24, net32_putInt h28, net32_putInt h32, remaining_int h32⟩

theorem initSttEntrys_written {ds : List STTDATA}
    (h : Remaining msg off (ds.flatMap STTDATA.writeTo ++ rest)) (stt : List SttMatchEntry) :
    ∃ off', initSttEntrys msg ds.length off stt = .ok (stt ++ ds.map sttEntryOf, off') ∧
      Remaining msg off' rest := by
  induction ds generalizing off stt with
  | nil => exact ⟨off, by simp [initSttEntrys], h⟩
  | cons d ds ih =>
    rw [List.flatMap_cons, List.append_assoc] at h
    obtain ⟨hlt, hl, hrt, hr, hop, hpre, hcur, hnext⟩ := readSttData h
    obtain ⟨off', hrun, hrest⟩ := ih hnext (stt ++ [sttEntryOf d])
    refine ⟨off', ?_, hrest⟩
    rw [List.length_cons, initSttEntrys, hcur]
    simp only [bind, Except.bind, hlt, hl, hrt, hr, hop, hpre]
    rw [List.append_assoc] at hrun
    exact hrun

/-! ## The action table -/

theorem readAtData {d : ATDATA} (hmsg : msg.length < 65536)
    (h : Remaining msg off (d.writeTo ++ rest)) :
    net32 msg off = .ok d.act.type.getValue ∧ net32 msg (off + 4) = .ok d.act.param ∧
    net32 msg (off + 8) = .ok d.status ∧ net32 msg (off + 12) = .ok d.lenOfBuf ∧
    d.buffer.length < 65536 ∧ Remaining msg (off + 16) (d.buffer ++ rest) := by
  simp only [ATDATA.writeTo, SFAAction.writeTo, List.append_assoc] at h
  have h4 := remaining_int h
  have h8 := remaining_int h4
  have h12 := remaining_int h8
  have h16 := remaining_int h12
  have hl : d.buffer.length < 65536 := by
    have hlen := h16.length_eq
    rw [List.length_append] at hlen
    omega
  exact ⟨net32_putInt h, net32_putInt h4, net32_putInt h8, net32_putInt h12, hl, h16⟩

/-- One round of the loop enters the record in front of it. -/
theorem initAtEntrys_item (hmsg : msg.length < 65536) {d : ATDATA} (hne : d.buffer ≠ [])
    (hn : 0 ∉ d.buffer)
    (h : Remaining msg off (d.writeTo ++ rest)) (t : Entries hash AtMatchEntry.data) (n : Nat) :
    ∃ off', initAtEntrys msg (n + 1) off t = initAtEntrys msg n off' (t.insert (atEntryOf d)) ∧
      Remaining msg off' rest := by
  obtain ⟨hactype, hacparam, hstatus, hlen, hl, h16⟩ := readAtData hmsg h
  have hdata := copyKey_pred h16 hne hn hl d.len_eq
  refine ⟨off + 16 + d.lenOfBuf.toNat, ?_, remaining_key h16 hl d.len_eq⟩
  rw [initAtEntrys, hactype]
  simp only [bind, Except.bind, hacparam, hstatus, hlen, hdata]
  rfl

theorem initAtEntrys_written (hmsg : msg.length < 65536) {ds : List ATDATA}
    (hk : ∀ d ∈ ds, d.buffer ≠ [] ∧ 0 ∉ d.buffer)
    (h : Remaining msg off (ds.flatMap ATDATA.writeTo ++ rest))
    (tbl : Entries hash AtMatchEntry.data) :
    ∃ tbl' off', initAtEntrys msg ds.length off tbl = .ok (tbl', off') ∧
      (tbl'.entries : Multiset AtMatchEntry) = ↑(ds.map atEntryOf) + ↑tbl.entries ∧
      Remaining msg off' rest := by
  induction ds generalizing off tbl with
  | nil => exact ⟨tbl, off, rfl, by simp, h⟩
  | cons d ds ih =>
    rw [List.flatMap_cons, List.append_assoc] at h
    obtain ⟨hne, hn⟩ := hk d List.mem_cons_self
    obtain ⟨off₁, hitem, h₁⟩ := initAtEntrys_item hmsg hne hn h tbl ds.length
    obtain ⟨tbl', off', hrun, hentries, hrest⟩ :=
      ih (fun x hx => hk x (List.mem_cons_of_mem d hx)) h₁ (tbl.insert (atEntryOf d))
    refine ⟨tbl', off', hitem.trans hrun, ?_, hrest⟩
    rw [hentries, Entries.entries_insert, List.map_cons, ← Multiset.cons_coe,
      Multiset.add_cons, Multiset.cons_add]

end

/-! ## The whole message -/

/-- The app is the one that the three bodies describe. -/
structure CreatedFrom (app : ControllApp hash) (st : SFASt) (stt : SFAStt) (tbl : SFAAt) :
    Prop where
  appid : app.appid = st.appid
  matchBitmap : app.pst.matchBitmap = st.bitmap
  bitmap : app.pat.bitmap = tbl.bitmap
  status : (app.pst.stEntrys.entries : Multiset StMatchEntry) = ↑(st.stdatas.map stEntryOf)
  transitions : app.pstt = stt.sttdatas.map sttEntryOf
  actions : (app.pat.atEntrys.entries : Multiset AtMatchEntry) = ↑(tbl.atdatas.map atEntryOf)

theorem writeTo_of_bodies {m : SFACreate} {st : SFASt} {stt : SFAStt} {tbl : SFAAt}
    (hst : m.stbody = some st) (hstt : m.sttbody = some stt) (hat : m.atbody = some tbl) :
    ∃ length, m.writeTo =
      .ok (m.header.writeTo 90 length ++ (st.writeTo ++ (stt.writeTo ++ tbl.writeTo))) := by
  simp only [SFACreate.writeTo, SFACreate.computeLength, hst, hstt, hat]
  exact ⟨_, rfl⟩

/-- The handler, from what its loads and its three loops return. -/
theorem sfaMsgInit_of_reads {bytes : List Byte} {g : GApps hash}
    {aid loopCt sttCount atCt : BitVec 32} {matchBitmap bitmap : BitVec 64} {c1 c2 c3 : Nat}
    {st : Entries hash StMatchEntry.data} {stt : List SttMatchEntry}
    {tbl : Entries hash AtMatchEntry.data}
    (haid : net32 bytes 8 = .ok aid) (hfree : g.find aid = none)
    (hmp : net64 bytes 12 = .ok matchBitmap) (hct : net32 bytes 20 = .ok loopCt)
    (hst : initStEntrys bytes (intRounds loopCt) 24 Entries.init = .ok (st, c1))
    (hsttCt : net32 bytes c1 = .ok sttCount)
    (hstt : initSttEntrys bytes sttCount.toNat (c1 + 4) [] = .ok (stt, c2))
    (hbm : net64 bytes c2 = .ok bitmap) (hatCt : net32 bytes (c2 + 8) = .ok atCt)
    (hat : initAtEntrys bytes (intRounds atCt) (c2 + 12) Entries.init = .ok (tbl, c3)) :
    sfaMsgInit bytes g =
      .ok (.ok, g.append ⟨aid, ⟨matchBitmap, st⟩, stt, ⟨bitmap, tbl⟩⟩ hfree, c3) := by
  unfold sfaMsgInit
  rw [haid]
  simp only [bind, Except.bind]
  split
  · rename_i hfound
    rw [hfree] at hfound
    cases hfound
  · simp only [hct, hmp, hst, hsttCt, hstt, hatCt, hbm, hat]
    rfl

/-- `sfa_msg_init` rebuilds from the bytes of `SFACreate.writeTo` the app that was
written, behind the apps that were there, and stops at the end of the message. -/
theorem sfaMsgInit_writeTo (m : SFACreate) {st : SFASt} {stt : SFAStt} {tbl : SFAAt}
    (hst : m.stbody = some st) (hstt : m.sttbody = some stt) (hat : m.atbody = some tbl)
    (hstKeys : ∀ d ∈ st.stdatas, d.buffer ≠ [] ∧ 0 ∉ d.buffer)
    (hatKeys : ∀ d ∈ tbl.atdatas, d.buffer ≠ [] ∧ 0 ∉ d.buffer)
    (g : GApps hash) (hfree : g.find st.appid = none) :
    ∃ bytes, m.writeTo = .ok bytes ∧
      (bytes.length < 65536 →
        ∃ app g', sfaMsgInit bytes g = .ok (.ok, g', bytes.length) ∧
          g'.appslist = g.appslist ++ [app] ∧ g'.islistinit = true ∧
          CreatedFrom app st stt tbl) := by
  obtain ⟨length, hw⟩ := writeTo_of_bodies hst hstt hat
  refine ⟨_, hw, ?_⟩
  intro hmsg
  generalize hbytes : m.header.writeTo 90 length ++
    (st.writeTo ++ (stt.writeTo ++ tbl.writeTo)) = bytes at hmsg ⊢
  have h0 := remaining_start bytes
  nth_rewrite 2 [← hbytes] at h0
  have h8 := h0.skip
  rw [OFMessage.writeTo_length, Nat.zero_add, SFASt.writeTo] at h8
  simp only [List.append_assoc] at h8
  have h12 := remaining_int h8
  have h20 := remaining_long h12
  have h24 := remaining_int h20
  have hstLen := length_le_written (fun d => by simp [STDATA.writeTo]; omega) h24
  obtain ⟨stEntrys, c1, hst1, hstEntries, hr1⟩ := initStEntrys_written hmsg
    (fun d hd => (hstKeys d hd).2) h24 (Entries.init : Entries hash StMatchEntry.data)
  simp only [SFAStt.writeTo, List.append_assoc] at hr1
  have hr2 := remaining_int hr1
  have hsttLen := length_le_written (fun d => by simp [STTDATA.writeTo]) hr2
  obtain ⟨c2, hstt1, hr3⟩ := initSttEntrys_written hr2 []
  simp only [SFAAt.writeTo] at hr3
  have hr4 := remaining_long hr3
  have hr5 := remaining_int hr4
  rw [← List.append_nil (List.flatMap ATDATA.writeTo tbl.atdatas), Nat.add_assoc] at hr5
  have hatLen := length_le_written (fun d => by simp [ATDATA.writeTo]; omega) hr5
  obtain ⟨atEntrys, c3, hat1, hatEntries, hr6⟩ := initAtEntrys_written hmsg
    hatKeys hr5 (Entries.init : Entries hash AtMatchEntry.data)
  have hend : c3 = bytes.length := by simpa using hr6.length_eq
  have hstRounds : intRounds st.count = st.stdatas.length := by
    rw [st.count_eq]
    exact intRounds_ofNat (by omega)
  have hsttRounds : stt.count.toNat = stt.sttdatas.length := by
    rw [stt.count_eq]
    exact toNat_ofNat_length (by omega)
  have hatRounds : intRounds tbl.counts = tbl.atdatas.length := by
    rw [tbl.counts_eq]
    exact intRounds_ofNat (by omega)
  have hrun := sfaMsgInit_of_reads (net32_putInt h8) hfree (net64_putLong h12) (net32_putInt h20)
    (by rw [hstRounds]; exact hst1) (net32_putInt hr1) (by rw [hsttRounds]; exact hstt1)
    (net64_putLong hr3) (net32_putInt hr4) (by rw [hatRounds]; exact hat1)
  rw [hend] at hrun
  refine ⟨_, _, hrun, rfl, rfl, ?_⟩
  constructor
  · rfl
  · rfl
  · rfl
  · simpa using hstEntries
  · rfl
  · simpa using hatEntries

def sampleSt : SFASt :=
  ((SFASt.new.setAppid 1).setBitmap 0x18000).addStData (STDATA.new 1 [0x31, 0x32])

def sampleStt : SFAStt :=
  SFAStt.new.addSttData ⟨.tpFlag, 0, .const, 2, .bitand, 1, 2⟩

def sampleAt : SFAAt :=
  (SFAAt.new.setBitmap 0x18000).addAtData (ATDATA.new 2 [0x31, 0x32] ⟨.toopenflow, 0⟩)

def sampleCreate : SFACreate := ((SFACreate.new.setST sampleSt).setSTT sampleStt).setAT sampleAt

/-- One entry in each table, sent to a switch that has just started. -/
theorem sfaMsgInit_writeTo_sample :
    ∃ bytes, sampleCreate.writeTo = .ok bytes ∧ bytes.length = 104 ∧
      ∃ app g', sfaMsgInit bytes (GApps.start : GApps hashString) = .ok (.ok, g', bytes.length) ∧
        g'.appslist = [app] ∧ CreatedFrom app sampleSt sampleStt sampleAt := by
  obtain ⟨bytes, hw, h⟩ := @sfaMsgInit_writeTo hashString sampleCreate sampleSt sampleStt sampleAt
    rfl rfl rfl (by decide) (by decide) GApps.start rfl
  have hlen : bytes.length = 104 := by
    have hl := congrArg (fun r => r.toOption.map List.length) hw
    exact (Option.some.inj (hl.symm.trans (by decide)))
  obtain ⟨app, g', hrun, happs, _, hcreated⟩ := h (by omega)
  exact ⟨bytes, hw, hlen, app, g', hrun, happs, hcreated⟩

end Sdpa.Protocol
