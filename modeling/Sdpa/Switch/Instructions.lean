import Mathlib.Data.List.Nodup
import Mathlib.Data.List.Perm.Basic
import Mathlib.Logic.Function.Basic
import Sdpa.Lib.Endian

/-!
# Instruction sets

`ofpacts_pull_openflow_instructions`, `ofpacts_verify` and
`ofpacts_put_openflow_instructions` of `lib/ofp-actions.c`, over bytes. The order of the
instructions is fixed in three places: the enumeration, the order in which a pull appends
the ofpacts, and the order in which a put finds them. A buffer of ofpacts is a list. The
actions inside the instructions are of an arbitrary type with a codec.
-/
namespace Sdpa.Switch.Instructions

open Sdpa.Lib.Endian

/-! ## Types and lengths -/

/-- `enum ovs_instruction_type`. -/
inductive InstructionType
  | meter | applyActions | clearActions | writeActions | writeMetadata | gotoFp | gotoTable
  deriving DecidableEq

namespace InstructionType

/-- `OVS_INSTRUCTIONS`. -/
def ovsInstructions : List InstructionType :=
  [meter, applyActions, clearActions, writeActions, writeMetadata, gotoFp, gotoTable]

/-- The value of the enumerator. -/
def value : InstructionType → Nat
  | meter => 0 | applyActions => 1 | clearActions => 2 | writeActions => 3
  | writeMetadata => 4 | gotoFp => 5 | gotoTable => 6

/-- `enum ofp11_instruction_type` and `enum ofp13_instruction_type`. -/
def ofpit : InstructionType → Nat
  | gotoTable => 1 | writeMetadata => 2 | writeActions => 3 | applyActions => 4
  | clearActions => 5 | meter => 6 | gotoFp => 7

def structSize : InstructionType → Nat
  | writeMetadata => 24
  | _ => 8

def extensible : InstructionType → Bool
  | applyActions | writeActions => true
  | _ => false

end InstructionType

def ofpit11Experimenter : Nat := 0xffff

/-- `enum ofp_version`. -/
inductive OfpVersion
  | ofp10 | ofp11 | ofp12 | ofp13
  deriving DecidableEq

/-- Why a pull does not give ofpacts. -/
inductive Failure
  | ofpbicBadExperimenter | ofpbicUnknownInst | ofpbicBadLen | onfbicDupInstruction
  | ofpbacBadType | ofpbacUnsupportedOrder
  /-- An error of an action decoder. -/
  | ofpbac (code : Nat)
  /-- The 16-bit length of a `WRITE_ACTIONS` ofpact has wrapped around, and what follows it
  is looked for in the wrong place. -/
  | lenWraps
  deriving DecidableEq

/-! ## Ofpacts and actions -/

/-- The ofpacts. Those of actions are behind `action`. -/
inductive Ofpact (A : Type)
  | action (act : A)
  | meter (meterId : BitVec 32)
  | clearActions
  | writeActions (actions : List A)
  | writeMetadata (metadata mask : BitVec 64)
  | gotoFp (bitmap : Byte)
  | gotoTable (tableId : Byte)
  deriving DecidableEq

/-- What an action of a message decodes to. Nicira's `write_metadata` gives the ofpact of the
instruction. -/
inductive Decoded (A : Type)
  | action (act : A)
  | writeMetadata (metadata mask : BitVec 64)
  deriving DecidableEq

variable {A : Type}

def Decoded.ofpact : Decoded A → Ofpact A
  | action a => .action a
  | writeMetadata metadata mask => .writeMetadata metadata mask

/-- The action codecs of `lib/ofp-actions.c`. -/
structure ActionCodec (A : Type) where
  /-- `ofpacts_from_openflow`. -/
  fromOpenflow : OfpVersion → List Byte → Except Failure (List (Decoded A))
  /-- `ofpact_to_openflow11` and `ofpact_to_openflow12`. -/
  toOpenflow : OfpVersion → A → List Byte
  /-- `ofpact_is_allowed_in_actions_set`, for an action. -/
  isAllowedInActionsSet : A → Bool
  /-- The size of the ofpact, padded. -/
  size : A → Nat

/-- The encoded actions decode to themselves. -/
structure ActionCodec.RoundTrips (c : ActionCodec A) (version : OfpVersion) : Prop where
  from_to : ∀ acts : List A,
    c.fromOpenflow version (acts.flatMap (c.toOpenflow version)) = .ok (acts.map .action)
  aligned : ∀ act, 8 ∣ (c.toOpenflow version act).length

/-- `ovs_instruction_type_from_ofpact_type`. -/
def Ofpact.instructionType : Ofpact A → InstructionType
  | gotoFp _ => .gotoFp
  | meter _ => .meter
  | clearActions => .clearActions
  | writeActions _ => .writeActions
  | writeMetadata _ _ => .writeMetadata
  | gotoTable _ => .gotoTable
  | action _ => .applyActions

def actionForSet (c : ActionCodec A) : Decoded A → Except Failure A
  | .action act => if c.isAllowedInActionsSet act then .ok act else .error .ofpbacBadType
  | .writeMetadata _ _ => .error .ofpbacBadType

/-- `ofpacts_from_openflow11_for_action_set`. The length of the ofpact, which begins eight
bytes before the actions, is kept in 16 bits. -/
def fromOpenflow11ForActionSet (c : ActionCodec A) (version : OfpVersion) (bytes : List Byte) :
    Except Failure (List A) := do
  let decoded ← c.fromOpenflow version bytes
  let acts ← decoded.mapM (actionForSet c)
  if 8 + (acts.map c.size).sum < 2 ^ 16 then return acts else .error .lenWraps

/-! ## `ofpacts_pull_openflow_instructions` -/

/-- `ntohs` of the half word at `off`. -/
def net16 (bytes : List Byte) (off : Nat) : Nat :=
  (bswap 2 (leWord 2 ((bytes.drop off).take 2))).toNat

def net32At (bytes : List Byte) (off : Nat) : BitVec 32 :=
  bswap 4 (leWord 4 ((bytes.drop off).take 4))

def load64At (bytes : List Byte) (off : Nat) : BitVec 64 :=
  leWord 8 ((bytes.drop off).take 8)

def load8At (bytes : List Byte) (off : Nat) : Byte :=
  leWord 1 ((bytes.drop off).take 1)

/-- `insts[]`: the bytes of the instruction of each type. -/
abbrev Insts := InstructionType → Option (List Byte)

/-- `instruction_is_valid`. -/
def instructionIsValid (inst : List Byte) (nInstructions : Nat) : Prop :=
  net16 inst 2 % 8 = 0 ∧ 8 ≤ net16 inst 2 ∧ net16 inst 2 / 8 ≤ nInstructions

instance (inst : List Byte) (n : Nat) : Decidable (instructionIsValid inst n) :=
  inferInstanceAs (Decidable (_ ∧ _ ∧ _))

def decodeOpenflow11Instruction (type len : Nat) : Except Failure InstructionType :=
  if type = ofpit11Experimenter then .error .ofpbicBadExperimenter
  else match InstructionType.ovsInstructions.find? (·.ofpit = type) with
    | none => .error .ofpbicUnknownInst
    | some t =>
      if if t.extensible then t.structSize ≤ len else len = t.structSize then .ok t
      else .error .ofpbicBadLen

/-- `decode_openflow11_instructions`, with as many rounds at most as there are units of eight
bytes. -/
def decodeOpenflow11Instructions : Nat → Nat → List Byte → Insts → Except Failure Insts
  | 0, left, _, out => if left = 0 then .ok out else .error .ofpbicBadLen
  | rounds + 1, left, inst, out =>
    if 0 < left ∧ instructionIsValid inst left then do
      let len := net16 inst 2
      let type ← decodeOpenflow11Instruction (net16 inst 0) len
      if (out type).isSome then .error .onfbicDupInstruction
      else
        decodeOpenflow11Instructions rounds (left - len / 8) (inst.drop len)
          (Function.update out type (some (inst.take len)))
    else if left = 0 then .ok out else .error .ofpbicBadLen

/-- The ofpacts that the branch of a pull for one type of instruction appends. -/
def pullInstruction (c : ActionCodec A) (version : OfpVersion) (inst : List Byte) :
    InstructionType → Except Failure (List (Ofpact A))
  | .gotoFp => .ok [.gotoFp (load8At inst 4)]
  | .meter => .ok [.meter (net32At inst 4)]
  | .applyActions => (·.map Decoded.ofpact) <$> c.fromOpenflow version (inst.drop 8)
  | .clearActions => .ok [.clearActions]
  | .writeActions => (fun acts => [.writeActions acts]) <$>
      fromOpenflow11ForActionSet c version (inst.drop 8)
  | .writeMetadata => .ok [.writeMetadata (load64At inst 8) (load64At inst 16)]
  | .gotoTable => .ok [.gotoTable (load8At inst 4)]

def pullBranch (c : ActionCodec A) (version : OfpVersion) (insts : Insts)
    (type : InstructionType) : Except Failure (List (Ofpact A)) :=
  match insts type with
  | some inst => pullInstruction c version inst type
  | none => .ok []

/-- The order of the branches. -/
def pullOrder : List InstructionType :=
  [.gotoFp, .meter, .applyActions, .clearActions, .writeActions, .writeMetadata, .gotoTable]

/-- The loop of `ofpacts_verify` behind the first ofpact. -/
def verifyRest (inst : InstructionType) : List (Ofpact A) → Except Failure Unit
  | [] => .ok ()
  | a :: rest =>
    let next := a.instructionType
    if if inst = .applyActions then next.value < inst.value else next.value ≤ inst.value then
      .error .ofpbacUnsupportedOrder
    else verifyRest next rest

def ofpactsVerify : List (Ofpact A) → Except Failure Unit
  | [] => .ok ()
  | a :: rest => verifyRest a.instructionType rest

def pullInsts (c : ActionCodec A) (version : OfpVersion) (insts : Insts) :
    Except Failure (List (Ofpact A)) := do
  let ofpacts ← pullOrder.mapM (pullBranch c version insts)
  ofpactsVerify ofpacts.flatten
  return ofpacts.flatten

/-- Also returns what is left of the message. -/
def ofpactsPullOpenflowInstructions (c : ActionCodec A) (version : OfpVersion)
    (openflow : List Byte) (instructionsLen : Nat) :
    Except Failure (List (Ofpact A)) × List Byte :=
  if instructionsLen % 8 ≠ 0 then (.error .ofpbicBadLen, openflow)
  else if openflow.length < instructionsLen then (.error .ofpbicBadLen, openflow)
  else
    (decodeOpenflow11Instructions (instructionsLen / 8) (instructionsLen / 8)
      (openflow.take instructionsLen) (fun _ => none) >>= pullInsts c version,
      openflow.drop instructionsLen)

/-! ## `ofpacts_put_openflow_instructions` -/

/-- The type and the length of an instruction. -/
def header (type : InstructionType) (len : Nat) : List Byte :=
  beBytes 2 type.ofpit ++ beBytes 2 len

/-- `ofpacts_update_instruction_actions`, behind an `instruction_put`. -/
def putInstructionActions (type : InstructionType) (actions : List Byte) : List Byte :=
  if 0 < actions.length then
    header type (8 + actions.length) ++ List.replicate 4 0 ++ actions
  else []

/-- The actions up to the next ofpact that is none, and what comes behind them. -/
def spanActions : List (Ofpact A) → List A × List (Ofpact A)
  | .action act :: rest => (act :: (spanActions rest).1, (spanActions rest).2)
  | rest => ([], rest)

/-- The loop, with as many rounds at most as there are ofpacts. -/
def putInstructions (c : ActionCodec A) (version : OfpVersion) :
    Nat → List (Ofpact A) → List Byte
  | 0, _ => []
  | _ + 1, [] => []
  | n + 1, .gotoFp bitmap :: rest =>
    header .gotoFp 8 ++ [bitmap] ++ List.replicate 3 0 ++ putInstructions c version n rest
  | n + 1, .clearActions :: rest =>
    header .clearActions 8 ++ List.replicate 4 0 ++ putInstructions c version n rest
  | n + 1, .gotoTable tableId :: rest =>
    header .gotoTable 8 ++ [tableId] ++ List.replicate 3 0 ++ putInstructions c version n rest
  | n + 1, .writeMetadata metadata mask :: rest =>
    header .writeMetadata 24 ++ List.replicate 4 0 ++ leBytes 8 metadata.toNat ++
      leBytes 8 mask.toNat ++ putInstructions c version n rest
  | n + 1, .meter meterId :: rest =>
    (if version = .ofp13 then header .meter 8 ++ beBytes 4 meterId.toNat else []) ++
      putInstructions c version n rest
  | n + 1, .action act :: rest =>
    let acts := act :: (spanActions rest).1
    putInstructionActions .applyActions (acts.flatMap (c.toOpenflow version)) ++
      putInstructions c version n (spanActions rest).2
  | n + 1, .writeActions acts :: rest =>
    putInstructionActions .writeActions (acts.flatMap (c.toOpenflow version)) ++
      putInstructions c version n rest

/-- `none` where the assertion on the version fails. -/
def ofpactsPutOpenflowInstructions (c : ActionCodec A) (version : OfpVersion)
    (ofpacts : List (Ofpact A)) : Option (List Byte) :=
  if version = .ofp10 then none else some (putInstructions c version ofpacts.length ofpacts)

end Sdpa.Switch.Instructions
