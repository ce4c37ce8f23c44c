import Sdpa.Switch.Instructions

/-!
# What a pull makes of a well-formed instruction set

Instructions that are well formed by themselves, in any order and of distinct types, are
found again by the decoder, so that a pull succeeds if and as far as `ofpacts_verify` lets
it. What a put writes is such an instruction set again.
-/
namespace Sdpa.Switch.Instructions

open Sdpa.Lib.Endian

variable {A : Type} {c : ActionCodec A} {version : OfpVersion}

/-! ## Well-formed instructions -/

/-- The actions of an instruction, as many bytes as its length can tell. -/
structure ActionBytes where
  bytes : List Byte
  aligned : 8 ∣ bytes.length
  fits : 8 + bytes.length < 2 ^ 16

inductive Instruction
  | meter (meterId : BitVec 32)
  | applyActions (pad : BitVec 32) (actions : ActionBytes)
  | clearActions (pad : BitVec 32)
  | writeActions (pad : BitVec 32) (actions : ActionBytes)
  | writeMetadata (pad : BitVec 32) (metadata mask : BitVec 64)
  | gotoFp (bitmap : Byte) (pad : BitVec 24)
  | gotoTable (tableId : Byte) (pad : BitVec 24)

namespace Instruction

def type : Instruction → InstructionType
  | meter _ => .meter
  | applyActions _ _ => .applyActions
  | clearActions _ => .clearActions
  | writeActions _ _ => .writeActions
  | writeMetadata _ _ _ => .writeMetadata
  | gotoFp _ _ => .gotoFp
  | gotoTable _ _ => .gotoTable

/-- The bytes behind the type and the length. -/
def body : Instruction → List Byte
  | meter meterId => beBytes 4 meterId.toNat
  | applyActions pad actions => leBytes 4 pad.toNat ++ actions.bytes
  | clearActions pad => leBytes 4 pad.toNat
  | writeActions pad actions => leBytes 4 pad.toNat ++ actions.bytes
  | writeMetadata pad metadata mask =>
    leBytes 4 pad.toNat ++ leBytes 8 metadata.toNat ++ leBytes 8 mask.toNat
  | gotoFp bitmap pad => bitmap :: leBytes 3 pad.toNat
  | gotoTable tableId pad => tableId :: leBytes 3 pad.toNat

def len (i : Instruction) : Nat := 4 + i.body.length

def wire (i : Instruction) : List Byte := header i.type i.len ++ i.body

/-- The ofpacts that the instruction stands for. -/
def decode (c : ActionCodec A) (version : OfpVersion) :
    Instruction → Except Failure (List (Ofpact A))
  | meter meterId => .ok [.meter meterId]
  | applyActions _ actions => (·.map Decoded.ofpact) <$> c.fromOpenflow version actions.bytes
  | clearActions _ => .ok [.clearActions]
  | writeActions _ actions => (fun acts => [.writeActions acts]) <$>
      fromOpenflow11ForActionSet c version actions.bytes
  | writeMetadata _ metadata mask => .ok [.writeMetadata metadata mask]
  | gotoFp bitmap _ => .ok [.gotoFp bitmap]
  | gotoTable tableId _ => .ok [.gotoTable tableId]

/-- The actions of the instruction decode. -/
def Decodable (c : ActionCodec A) (version : OfpVersion) (i : Instruction) : Prop :=
  ∃ ofpacts, i.decode c version = .ok ofpacts

def ofpacts (c : ActionCodec A) (version : OfpVersion) (i : Instruction) : List (Ofpact A) :=
  (i.decode c version).toOption.getD []

theorem decode_eq {i : Instruction} (h : i.Decodable c version) :
    i.decode c version = .ok (i.ofpacts c version) := by
  obtain ⟨ofpacts, hdecode⟩ := h
  rw [Instruction.ofpacts, hdecode]
  rfl

theorem aligned_len (i : Instruction) : 8 ∣ i.len := by
  cases i with
  | applyActions pad actions =>
    have := actions.aligned
    simp only [len, body, List.length_append, leBytes_length]
    omega
  | writeActions pad actions =>
    have := actions.aligned
    simp only [len, body, List.length_append, leBytes_length]
    omega
  | _ => simp [len, body]

theorem le_len (i : Instruction) : 8 ≤ i.len := by
  cases i <;> simp [len, body] <;> omega

theorem len_lt (i : Instruction) : i.len < 2 ^ 16 := by
  cases i with
  | applyActions pad actions =>
    have := actions.fits
    simp only [len, body, List.length_append, leBytes_length]
    omega
  | writeActions pad actions =>
    have := actions.fits
    simp only [len, body, List.length_append, leBytes_length]
    omega
  | _ => simp [len, body]

theorem length_wire (i : Instruction) : i.wire.length = i.len := by
  simp only [wire, header, len, List.length_append, beBytes_length]

end Instruction

/-! ## Reading an instruction back -/

theorem net16_beBytes {v : Nat} (hv : v < 2 ^ 16) (rest : List Byte) :
    net16 (beBytes 2 v ++ rest) 0 = v := by
  have hw : (BitVec.ofNat (8 * 2) v).toNat = v := Nat.mod_eq_of_lt hv
  have htake : (beBytes 2 v ++ rest).take 2 = beBytes 2 v := List.take_left' (by simp)
  have hword : leWord 2 (beBytes 2 v) = bswap 2 (BitVec.ofNat (8 * 2) v) := by
    rw [← leWord_beBytes, hw]
  rw [net16, List.drop_zero, htake, hword, bswap_bswap, hw]

theorem net16_type (i : Instruction) (rest : List Byte) :
    net16 (i.wire ++ rest) 0 = i.type.ofpit := by
  have hlt : i.type.ofpit < 2 ^ 16 := by
    cases i.type <;> decide
  rw [Instruction.wire, header, List.append_assoc, List.append_assoc]
  exact net16_beBytes hlt _

theorem net16_len (i : Instruction) (rest : List Byte) : net16 (i.wire ++ rest) 2 = i.len := by
  have hdrop : (i.wire ++ rest).drop 2 = beBytes 2 i.len ++ (i.body ++ rest) := by
    rw [Instruction.wire, header, List.append_assoc, List.append_assoc]
    exact List.drop_left' (by simp)
  have hread := net16_beBytes i.len_lt (i.body ++ rest)
  rw [← hdrop] at hread
  rw [← hread, net16, net16, List.drop_zero]

theorem decodeInstruction_ofpit (t : InstructionType) (len : Nat) :
    decodeOpenflow11Instruction t.ofpit len =
      if if t.extensible then t.structSize ≤ len else len = t.structSize then .ok t
      else .error .ofpbicBadLen := by
  cases t <;> rfl

theorem decodeInstruction_wire (i : Instruction) :
    decodeOpenflow11Instruction i.type.ofpit i.len = .ok i.type := by
  rw [decodeInstruction_ofpit]
  apply if_pos
  cases i with
  | applyActions pad actions => exact (Instruction.applyActions pad actions).le_len
  | writeActions pad actions => exact (Instruction.writeActions pad actions).le_len
  | _ => simp [Instruction.type, Instruction.len, Instruction.body, InstructionType.extensible,
      InstructionType.structSize]

/-- What `insts[]` holds after the loop, behind what it held before. -/
def instsOf (is : List Instruction) (out : Insts) : Insts :=
  fun t => ((is.find? (·.type = t)).map Instruction.wire).or (out t)

theorem instsOf_cons (i : Instruction) (is : List Instruction) (out : Insts)
    (hfresh : ∀ j ∈ is, j.type ≠ i.type) :
    instsOf is (Function.update out i.type (some i.wire)) = instsOf (i :: is) out := by
  funext t
  by_cases ht : i.type = t
  · subst ht
    have hnone : is.find? (·.type = i.type) = none := by
      simpa using hfresh
    simp [instsOf, hnone]
  · have hne : t ≠ i.type := Ne.symm ht
    simp [instsOf, ht, Function.update_of_ne hne]

/-- One round per instruction. -/
theorem decodeInstructions_wire (is : List Instruction) (rounds left : Nat) (out : Insts)
    (hrounds : is.length ≤ rounds) (hleft : 8 * left = (is.flatMap Instruction.wire).length)
    (hdistinct : (is.map Instruction.type).Nodup) (hout : ∀ i ∈ is, out i.type = none) :
    decodeOpenflow11Instructions rounds left (is.flatMap Instruction.wire) out =
      .ok (instsOf is out) := by
  induction is generalizing rounds left out with
  | nil =>
    have hzero : left = 0 := by
      simp at hleft
      exact hleft
    have hself : instsOf [] out = out := rfl
    cases rounds with
    | zero => rw [decodeOpenflow11Instructions, if_pos hzero, hself]
    | succ rounds =>
      rw [decodeOpenflow11Instructions, if_neg (by omega), if_pos hzero, hself]
  | cons i is ih =>
    obtain ⟨rounds, rfl⟩ : ∃ n, rounds = n + 1 := ⟨rounds - 1, by simp at hrounds; omega⟩
    rw [List.map_cons, List.nodup_cons] at hdistinct
    have hfresh : ∀ j ∈ is, j.type ≠ i.type := by
      intro j hj heq
      exact hdistinct.1 (heq ▸ List.mem_map_of_mem hj)
    rw [List.flatMap_cons] at hleft ⊢
    have hlen := i.aligned_len
    have hle := i.le_len
    rw [List.length_append, i.length_wire] at hleft
    have hvalid : 0 < left ∧ instructionIsValid (i.wire ++ is.flatMap Instruction.wire) left := by
      rw [instructionIsValid, net16_len]
      omega
    have hnone : (out i.type).isSome = false := by
      rw [hout i List.mem_cons_self]
      rfl
    have hdrop : (i.wire ++ is.flatMap Instruction.wire).drop i.len =
        is.flatMap Instruction.wire := List.drop_left' i.length_wire
    have htake : (i.wire ++ is.flatMap Instruction.wire).take i.len = i.wire :=
      List.take_left' i.length_wire
    rw [decodeOpenflow11Instructions, if_pos hvalid]
    simp only [net16_type, net16_len, decodeInstruction_wire, hdrop, htake]
    show (if (out i.type).isSome = true then _ else _) = _
    rw [hnone, if_neg Bool.false_ne_true]
    rw [ih rounds (left - i.len / 8) _ (by simp at hrounds; omega) (by omega) hdistinct.2 ?_]
    · rw [instsOf_cons i is out hfresh]
    · intro j hj
      rw [Function.update_of_ne (hfresh j hj)]
      exact hout j (List.mem_cons_of_mem i hj)

theorem drop_wire (i : Instruction) (k : Nat) : i.wire.drop (4 + k) = i.body.drop k := by
  have hheader : i.wire.drop 4 = i.body := List.drop_left' (by simp [header])
  rw [← List.drop_drop, hheader]

theorem load8At_wire {i : Instruction} {b : Byte} {rest : List Byte} (h : i.body = b :: rest) :
    load8At i.wire 4 = b := by
  have hword : leWord 1 [b] = b := by
    apply BitVec.eq_of_toNat_eq
    show (b.toNat + 256 * 0) % 2 ^ 8 = b.toNat
    have := b.isLt
    omega
  rw [load8At, drop_wire i 0, h]
  exact hword

theorem load64At_wire {i : Instruction} {w : BitVec 64} {front rest : List Byte} {off : Nat}
    (hbody : i.body = front ++ (leBytes 8 w.toNat ++ rest)) (hoff : off = 4 + front.length) :
    load64At i.wire off = w := by
  subst hoff
  rw [load64At, drop_wire i, hbody, List.drop_left' rfl, List.take_left' (leBytes_length 8 _)]
  exact leWord_leBytes 8 w

theorem net32At_wire {i : Instruction} {w : BitVec 32} (hbody : i.body = beBytes 4 w.toNat) :
    net32At i.wire 4 = w := by
  rw [net32At, drop_wire i 0, hbody, List.drop_zero, List.take_of_length_le (by simp)]
  exact bswap_bswap 4 w

theorem actions_wire {i : Instruction} {pad : BitVec 32} {actions : List Byte}
    (hbody : i.body = leBytes 4 pad.toNat ++ actions) : i.wire.drop 8 = actions := by
  rw [drop_wire i 4, hbody]
  exact List.drop_left' (leBytes_length 4 _)

/-- Each branch of a pull reads the fields of its instruction. -/
theorem pullInstruction_wire (c : ActionCodec A) (version : OfpVersion) (i : Instruction) :
    pullInstruction c version i.wire i.type = i.decode c version := by
  cases i with
  | meter meterId =>
    have hid := net32At_wire (i := .meter meterId) rfl
    simp only [Instruction.type, pullInstruction, hid, Instruction.decode]
  | applyActions pad actions =>
    have hdrop := actions_wire (i := .applyActions pad actions) rfl
    simp only [Instruction.type, pullInstruction, hdrop, Instruction.decode]
  | clearActions pad => rfl
  | writeActions pad actions =>
    have hdrop := actions_wire (i := .writeActions pad actions) rfl
    simp only [Instruction.type, pullInstruction, hdrop, Instruction.decode]
  | writeMetadata pad metadata mask =>
    have hbody : (Instruction.writeMetadata pad metadata mask).body =
        leBytes 4 pad.toNat ++ (leBytes 8 metadata.toNat ++ leBytes 8 mask.toNat) :=
      List.append_assoc _ _ _
    have hbody' : (Instruction.writeMetadata pad metadata mask).body =
        (leBytes 4 pad.toNat ++ leBytes 8 metadata.toNat) ++ (leBytes 8 mask.toNat ++ []) := by
      rw [List.append_nil]
      rfl
    have hmetadata : load64At (Instruction.writeMetadata pad metadata mask).wire 8 = metadata :=
      load64At_wire hbody (by simp)
    have hmask : load64At (Instruction.writeMetadata pad metadata mask).wire 16 = mask :=
      load64At_wire hbody' (by simp)
    simp only [Instruction.type, pullInstruction, hmetadata, hmask, Instruction.decode]
  | gotoFp bitmap pad =>
    have hbitmap := load8At_wire (i := .gotoFp bitmap pad) rfl
    simp only [Instruction.type, pullInstruction, hbitmap, Instruction.decode]
  | gotoTable tableId pad =>
    have hid := load8At_wire (i := .gotoTable tableId pad) rfl
    simp only [Instruction.type, pullInstruction, hid, Instruction.decode]

/-! ## The order of the pull -/

/-- The place of a type in the order of the pull. -/
def InstructionType.pullIndex : InstructionType → Nat
  | gotoFp => 0 | meter => 1 | applyActions => 2 | clearActions => 3 | writeActions => 4
  | writeMetadata => 5 | gotoTable => 6

def inPullOrder (is : List Instruction) : List Instruction :=
  pullOrder.flatMap fun t => (is.find? (·.type = t)).toList

def PullSorted (is : List Instruction) : Prop :=
  is.Pairwise fun i j => i.type.pullIndex < j.type.pullIndex

theorem mem_pullOrder (t : InstructionType) : t ∈ pullOrder := by
  cases t <;> decide

theorem pullSorted_inPullOrder (is : List Instruction) : PullSorted (inPullOrder is) := by
  have horder : pullOrder.Pairwise fun s t => s.pullIndex < t.pullIndex := by decide
  rw [PullSorted, inPullOrder, List.pairwise_flatMap]
  constructor
  · intro t _
    cases is.find? (·.type = t) with
    | none => exact List.Pairwise.nil
    | some i => exact List.pairwise_singleton _ i
  · refine horder.imp ?_
    intro s t hst i hi j hj
    have his := List.find?_some (Option.mem_toList.mp hi)
    have hjt := List.find?_some (Option.mem_toList.mp hj)
    simp only [decide_eq_true_eq] at his hjt
    rw [his, hjt]
    exact hst

theorem PullSorted.nodup {is : List Instruction} (h : PullSorted is) :
    (is.map Instruction.type).Nodup := by
  rw [List.Nodup, List.pairwise_map]
  refine List.Pairwise.imp ?_ h
  intro i j hij heq
  rw [heq] at hij
  exact Nat.lt_irrefl _ hij

theorem find_type {is : List Instruction} (hdistinct : (is.map Instruction.type).Nodup)
    {i : Instruction} (hi : i ∈ is) : is.find? (·.type = i.type) = some i := by
  induction is with
  | nil => cases hi
  | cons j is ih =>
    rw [List.map_cons, List.nodup_cons] at hdistinct
    rcases List.mem_cons.mp hi with rfl | hmem
    · simp
    · have hne : j.type ≠ i.type := by
        intro heq
        exact hdistinct.1 (heq ▸ List.mem_map_of_mem hmem)
      rw [List.find?_cons_of_neg (by simpa using hne)]
      exact ih hdistinct.2 hmem

theorem mem_inPullOrder {is : List Instruction} (hdistinct : (is.map Instruction.type).Nodup)
    (i : Instruction) : i ∈ inPullOrder is ↔ i ∈ is := by
  rw [inPullOrder, List.mem_flatMap]
  constructor
  · rintro ⟨t, -, hi⟩
    exact List.mem_of_find?_eq_some (Option.mem_toList.mp hi)
  · intro hi
    exact ⟨i.type, mem_pullOrder i.type, Option.mem_toList.mpr (find_type hdistinct hi)⟩

theorem inPullOrder_perm {is : List Instruction} (hdistinct : (is.map Instruction.type).Nodup) :
    (inPullOrder is).Perm is := by
  have hsorted := (pullSorted_inPullOrder is).nodup
  rw [List.perm_ext_iff_of_nodup (hsorted.of_map _) (hdistinct.of_map _)]
  exact mem_inPullOrder hdistinct

theorem PullSorted.inPullOrder_eq {is : List Instruction} (h : PullSorted is) :
    inPullOrder is = is := by
  refine List.Perm.eq_of_pairwise ?_ (pullSorted_inPullOrder is) h (inPullOrder_perm h.nodup)
  intro i j _ _ hij hji
  omega

/-! ## A pull of well-formed instructions -/

theorem mapM_eq_ok {α β : Type} {f : α → Except Failure β} {g : α → β} {l : List α}
    (h : ∀ x ∈ l, f x = .ok (g x)) : l.mapM f = .ok (l.map g) := by
  induction l with
  | nil => rfl
  | cons x l ih =>
    rw [List.mapM_cons, h x List.mem_cons_self, ih fun y hy => h y (List.mem_cons_of_mem x hy)]
    rfl

theorem pullInsts_instsOf {is : List Instruction} (hdec : ∀ i ∈ is, i.Decodable c version) :
    pullInsts c version (instsOf is fun _ => none) =
      (do
        ofpactsVerify ((inPullOrder is).flatMap (Instruction.ofpacts c version))
        return (inPullOrder is).flatMap (Instruction.ofpacts c version)) := by
  have hbranch : ∀ t ∈ pullOrder, pullBranch c version (instsOf is fun _ => none) t =
      .ok ((is.find? (·.type = t)).toList.flatMap (Instruction.ofpacts c version)) := by
    intro t _
    cases hfind : is.find? (·.type = t) with
    | none => simp [pullBranch, instsOf, hfind]
    | some i =>
      have htype := List.find?_some hfind
      simp only [decide_eq_true_eq] at htype
      have hi := hdec i (List.mem_of_find?_eq_some hfind)
      simp only [pullBranch, instsOf, hfind, Option.map_some, Option.some_or]
      rw [← htype, pullInstruction_wire, Instruction.decode_eq hi]
      simp
  have hflat : (pullOrder.map fun t =>
      (is.find? (·.type = t)).toList.flatMap (Instruction.ofpacts c version)).flatten =
      (inPullOrder is).flatMap (Instruction.ofpacts c version) := by
    rw [inPullOrder, List.flatMap_assoc, List.flatMap_def]
  rw [pullInsts, mapM_eq_ok hbranch, ← hflat]
  rfl

theorem length_wires (is : List Instruction) :
    8 * is.length ≤ (is.flatMap Instruction.wire).length ∧
      8 ∣ (is.flatMap Instruction.wire).length := by
  induction is with
  | nil => exact ⟨Nat.le_refl 0, Nat.dvd_zero 8⟩
  | cons i is ih =>
    have hle := i.le_len
    have haligned := i.aligned_len
    rw [List.flatMap_cons, List.length_append, i.length_wire, List.length_cons]
    omega

/-- A pull of instructions of distinct types finds them all, whatever their order. -/
theorem pull_eq_pullInsts {is : List Instruction} (hdistinct : (is.map Instruction.type).Nodup)
    (rest : List Byte) :
    ofpactsPullOpenflowInstructions c version (is.flatMap Instruction.wire ++ rest)
        (is.flatMap Instruction.wire).length =
      (pullInsts c version (instsOf is fun _ => none), rest) := by
  obtain ⟨hle, haligned⟩ := length_wires is
  have hmod : ¬ (is.flatMap Instruction.wire).length % 8 ≠ 0 := by omega
  have hshort : ¬ (is.flatMap Instruction.wire ++ rest).length <
      (is.flatMap Instruction.wire).length := by
    rw [List.length_append]
    omega
  rw [ofpactsPullOpenflowInstructions, if_neg hmod, if_neg hshort, List.take_left' rfl,
    List.drop_left' rfl, decodeInstructions_wire is _ _ _ (by omega) (by omega) hdistinct
      (fun _ _ => rfl)]
  rfl

/-- The order that `ofpacts_verify` asks for between an ofpact and a later one. -/
def Precedes (s t : InstructionType) : Prop :=
  if s = .applyActions then s.value ≤ t.value else s.value < t.value

instance (s t : InstructionType) : Decidable (Precedes s t) :=
  inferInstanceAs (Decidable (if s = .applyActions then s.value ≤ t.value else s.value < t.value))

def Verified (ofpacts : List (Ofpact A)) : Prop :=
  ofpacts.Pairwise fun a b => Precedes a.instructionType b.instructionType

/-- What `ofpacts_verify` refuses is what does not precede. -/
theorem refused_iff_not_precedes {s t : InstructionType} :
    (if s = .applyActions then t.value < s.value else t.value ≤ s.value) ↔ ¬ Precedes s t := by
  rw [Precedes]
  by_cases happly : s = .applyActions
  · rw [if_pos happly, if_pos happly, not_le]
  · rw [if_neg happly, if_neg happly, not_lt]

theorem verifyRest_eq_ok {t : InstructionType} {ofpacts : List (Ofpact A)}
    (ht : ∀ a ∈ ofpacts, Precedes t a.instructionType) (h : Verified ofpacts) :
    verifyRest t ofpacts = .ok () := by
  induction ofpacts generalizing t with
  | nil => rfl
  | cons a rest ih =>
    obtain ⟨ha, hrest⟩ := List.pairwise_cons.mp h
    have hnext := ht a List.mem_cons_self
    rw [verifyRest, if_neg fun hrefused => refused_iff_not_precedes.mp hrefused hnext]
    exact ih ha hrest

theorem Verified.verify {ofpacts : List (Ofpact A)} (h : Verified ofpacts) :
    ofpactsVerify ofpacts = .ok () := by
  cases ofpacts with
  | nil => rfl
  | cons a rest =>
    obtain ⟨ha, hrest⟩ := List.pairwise_cons.mp h
    exact verifyRest_eq_ok ha hrest

theorem pull_verified {is : List Instruction} (hdistinct : (is.map Instruction.type).Nodup)
    (hdec : ∀ i ∈ is, i.Decodable c version)
    (hverified : Verified ((inPullOrder is).flatMap (Instruction.ofpacts c version)))
    (rest : List Byte) :
    ofpactsPullOpenflowInstructions c version (is.flatMap Instruction.wire ++ rest)
        (is.flatMap Instruction.wire).length =
      (.ok ((inPullOrder is).flatMap (Instruction.ofpacts c version)), rest) := by
  rw [pull_eq_pullInsts hdistinct, pullInsts_instsOf hdec, hverified.verify]
  rfl

/-! ## The ofpacts of an instruction set -/

/-- `GOTO_FP` comes alone, or together with `GOTO_TABLE`. An `APPLY_ACTIONS` without actions
gives no ofpact and does not count. -/
def GotoFpAlone (c : ActionCodec A) (is : List Instruction) : Prop :=
  (∃ i ∈ is, i.type = .gotoFp) →
    ∀ i ∈ is, i.type = .gotoFp ∨ i.type = .gotoTable ∨ i.ofpacts c .ofp13 = []

/-- A `write_metadata` action is the last action, and no instruction comes with it that has
its place between the actions and `WRITE_METADATA`, or is `WRITE_METADATA` itself. -/
def MetadataLast (c : ActionCodec A) (is : List Instruction) : Prop :=
  ∀ i ∈ is, i.type = .applyActions →
    (∀ a ∈ (i.ofpacts c .ofp13).dropLast, a.instructionType = .applyActions) ∧
    ((∃ a ∈ i.ofpacts c .ofp13, a.instructionType = .writeMetadata) →
      ∀ j ∈ is, j.type ≠ .clearActions ∧ j.type ≠ .writeActions ∧ j.type ≠ .writeMetadata)

theorem ofpacts_applyActions {pad : BitVec 32} {actions : ActionBytes}
    (h : (Instruction.applyActions pad actions).Decodable c version) :
    ∃ decoded, c.fromOpenflow version actions.bytes = .ok decoded ∧
      (Instruction.applyActions pad actions).ofpacts c version = decoded.map Decoded.ofpact := by
  obtain ⟨ofpacts, hdecode⟩ := h
  cases hfrom : c.fromOpenflow version actions.bytes with
  | error e =>
    rw [Instruction.decode, hfrom] at hdecode
    cases hdecode
  | ok decoded =>
    refine ⟨decoded, rfl, ?_⟩
    rw [Instruction.ofpacts, Instruction.decode, hfrom]
    rfl

theorem ofpacts_writeActions {pad : BitVec 32} {actions : ActionBytes}
    (h : (Instruction.writeActions pad actions).Decodable c version) :
    ∃ acts, fromOpenflow11ForActionSet c version actions.bytes = .ok acts ∧
      (Instruction.writeActions pad actions).ofpacts c version = [.writeActions acts] := by
  obtain ⟨ofpacts, hdecode⟩ := h
  cases hfrom : fromOpenflow11ForActionSet c version actions.bytes with
  | error e =>
    rw [Instruction.decode, hfrom] at hdecode
    cases hdecode
  | ok acts =>
    refine ⟨acts, rfl, ?_⟩
    rw [Instruction.ofpacts, Instruction.decode, hfrom]
    rfl

/-- The ofpacts of an instruction are of its type, but for `write_metadata` actions. -/
theorem instructionType_of_mem {i : Instruction} (h : i.Decodable c version) {a : Ofpact A}
    (ha : a ∈ i.ofpacts c version) :
    a.instructionType = i.type ∨
      i.type = .applyActions ∧ a.instructionType = .writeMetadata := by
  cases i with
  | applyActions pad actions =>
    obtain ⟨decoded, -, hofpacts⟩ := ofpacts_applyActions h
    rw [hofpacts] at ha
    obtain ⟨d, -, rfl⟩ := List.mem_map.mp ha
    cases d with
    | action act => exact Or.inl rfl
    | writeMetadata metadata mask => exact Or.inr ⟨rfl, rfl⟩
  | writeActions pad actions =>
    obtain ⟨acts, -, hofpacts⟩ := ofpacts_writeActions h
    rw [hofpacts] at ha
    rw [List.mem_singleton.mp ha]
    exact Or.inl rfl
  | _ =>
    rw [List.mem_singleton.mp ha]
    exact Or.inl rfl

theorem verified_of_dropLast {ofpacts : List (Ofpact A)}
    (hlast : ∀ a ∈ ofpacts.dropLast, a.instructionType = .applyActions)
    (hvalue : ∀ a ∈ ofpacts, 1 ≤ a.instructionType.value) : Verified ofpacts := by
  induction ofpacts with
  | nil => exact List.Pairwise.nil
  | cons a rest ih =>
    cases rest with
    | nil => exact List.pairwise_singleton _ a
    | cons b rest =>
      rw [List.dropLast_cons_of_ne_nil (List.cons_ne_nil b rest)] at hlast
      have ha : a.instructionType = .applyActions := hlast a List.mem_cons_self
      refine List.pairwise_cons.mpr ⟨?_, ih ?_ ?_⟩
      · intro x hx
        rw [Precedes, if_pos ha, ha]
        exact hvalue x (List.mem_cons_of_mem a hx)
      · exact fun x hx => hlast x (List.mem_cons_of_mem a hx)
      · exact fun x hx => hvalue x (List.mem_cons_of_mem a hx)

theorem verified_ofpacts {is : List Instruction} (hmd : MetadataLast c is) {i : Instruction}
    (hi : i ∈ is) (h : i.Decodable c .ofp13) : Verified (i.ofpacts c .ofp13) := by
  by_cases htype : i.type = .applyActions
  · refine verified_of_dropLast (hmd i hi htype).1 ?_
    intro a ha
    rcases instructionType_of_mem h ha with hsame | ⟨-, hmeta⟩
    · rw [hsame, htype]
      decide
    · rw [hmeta]
      decide
  · cases i with
    | applyActions pad actions => exact absurd rfl htype
    | writeActions pad actions =>
      obtain ⟨acts, -, hofpacts⟩ := ofpacts_writeActions h
      rw [hofpacts]
      exact List.pairwise_singleton _ _
    | _ => exact List.pairwise_singleton _ _

theorem precedes_of_pullIndex {s t : InstructionType} (h : s.pullIndex < t.pullIndex)
    (hs : s ≠ .gotoFp) : Precedes s t := by
  cases s <;> cases t <;> first | exact absurd rfl hs | exact absurd h (by decide) | decide

theorem precedes_writeMetadata {s : InstructionType}
    (h : s.pullIndex < InstructionType.applyActions.pullIndex) (hs : s ≠ .gotoFp) :
    Precedes s .writeMetadata := by
  cases s <;> first | exact absurd rfl hs | exact absurd h (by decide) | decide

theorem eq_gotoTable {t : InstructionType}
    (h : InstructionType.applyActions.pullIndex < t.pullIndex) (hclear : t ≠ .clearActions)
    (hwrite : t ≠ .writeActions) (hmetadata : t ≠ .writeMetadata) : t = .gotoTable := by
  cases t with
  | gotoTable => rfl
  | clearActions => exact absurd rfl hclear
  | writeActions => exact absurd rfl hwrite
  | writeMetadata => exact absurd rfl hmetadata
  | meter | applyActions | gotoFp => exact absurd h (by decide)

/-- The ofpacts of two instructions, one before the other in the order of the pull. -/
theorem precedes_of_instructions {is : List Instruction}
    (hdec : ∀ i ∈ is, i.Decodable c .ofp13) (hfp : GotoFpAlone c is) (hmd : MetadataLast c is)
    {i j : Instruction} (hi : i ∈ is) (hj : j ∈ is)
    (hij : i.type.pullIndex < j.type.pullIndex) {a b : Ofpact A} (ha : a ∈ i.ofpacts c .ofp13)
    (hb : b ∈ j.ofpacts c .ofp13) : Precedes a.instructionType b.instructionType := by
  have hatype := instructionType_of_mem (hdec i hi) ha
  have hbtype := instructionType_of_mem (hdec j hj) hb
  by_cases hgoto : i.type = .gotoFp
  · rcases hfp ⟨i, hi, hgoto⟩ j hj with hsame | htable | hnone
    · rw [hgoto, hsame] at hij
      exact absurd hij (Nat.lt_irrefl _)
    · rw [hgoto] at hatype
      rw [htable] at hbtype
      rcases hatype with ha' | ⟨himpossible, -⟩
      · rcases hbtype with hb' | ⟨himpossible, -⟩
        · rw [ha', hb']
          decide
        · cases himpossible
      · cases himpossible
    · rw [hnone] at hb
      cases hb
  · rcases hatype with ha' | ⟨happly, hmeta⟩
    · rcases hbtype with hb' | ⟨happly, hmeta⟩
      · rw [ha', hb']
        exact precedes_of_pullIndex hij hgoto
      · rw [happly] at hij
        rw [ha', hmeta]
        exact precedes_writeMetadata hij hgoto
    · -- Behind a `write_metadata` action only `GOTO_TABLE` is left.
      obtain ⟨hclear, hwrite, hmetadata⟩ := (hmd i hi happly).2 ⟨a, ha, hmeta⟩ j hj
      rw [happly] at hij
      rw [eq_gotoTable hij hclear hwrite hmetadata] at hbtype
      rcases hbtype with hb' | ⟨himpossible, -⟩
      · rw [hmeta, hb']
        decide
      · cases himpossible

theorem verified_inPullOrder {is : List Instruction}
    (hdistinct : (is.map Instruction.type).Nodup) (hdec : ∀ i ∈ is, i.Decodable c .ofp13)
    (hfp : GotoFpAlone c is) (hmd : MetadataLast c is) :
    Verified ((inPullOrder is).flatMap (Instruction.ofpacts c .ofp13)) := by
  have hmem := mem_inPullOrder hdistinct
  rw [Verified, List.pairwise_flatMap]
  constructor
  · intro i hi
    have hi' := (hmem i).mp hi
    exact verified_ofpacts hmd hi' (hdec i hi')
  · refine List.Pairwise.imp_of_mem ?_ (pullSorted_inPullOrder is)
    intro i j hi hj hij a ha b hb
    exact precedes_of_instructions hdec hfp hmd ((hmem i).mp hi) ((hmem j).mp hj) hij ha hb

end Sdpa.Switch.Instructions
