import Sdpa.Lib.Decimal
import Sdpa.Switch.InstructionSets
import Sdpa.Switch.Tables

/-!
# Instructions as text

`ofpacts_format` of `lib/ofp-actions.c`, `ofputil_parse_key_value` of `lib/ofp-util.c` and
`str_to_inst_ofpacts` of `lib/ofp-parse.c`. The texts of actions, and of instructions other
than `goto_fp`, are those of an arbitrary codec.
-/
namespace Sdpa.Switch.Instructions

open Sdpa.Lib.Decimal
open Sdpa.Lib.Endian

variable {A : Type}

/-! ## Words of the text -/

abbrev Text := List Byte

def ofChars (l : List Char) : Text := l.map fun c => BitVec.ofNat 8 c.toNat

def comma : Byte := 0x2c
def colon : Byte := 0x3a
def equals : Byte := 0x3d
def openParen : Byte := 0x28
def closeParen : Byte := 0x29

/-- `", \t\r\n"`. -/
def isSeparator (b : Byte) : Bool := [comma, 0x20, 0x09, 0x0d, 0x0a].contains b

/-- `":=(, \t\r\n"`. -/
def isDelimiter (b : Byte) : Bool := [colon, equals, openParen].contains b || isSeparator b

/-- The names in `OVS_INSTRUCTIONS`. -/
def InstructionType.name : InstructionType → Text
  | meter => ofChars ['m', 'e', 't', 'e', 'r']
  | applyActions =>
    ofChars ['a', 'p', 'p', 'l', 'y', '_', 'a', 'c', 't', 'i', 'o', 'n', 's']
  | clearActions =>
    ofChars ['c', 'l', 'e', 'a', 'r', '_', 'a', 'c', 't', 'i', 'o', 'n', 's']
  | writeActions =>
    ofChars ['w', 'r', 'i', 't', 'e', '_', 'a', 'c', 't', 'i', 'o', 'n', 's']
  | writeMetadata =>
    ofChars ['w', 'r', 'i', 't', 'e', '_', 'm', 'e', 't', 'a', 'd', 'a', 't', 'a']
  | gotoFp => ofChars ['g', 'o', 't', 'o', '_', 'f', 'p']
  | gotoTable => ofChars ['g', 'o', 't', 'o', '_', 't', 'a', 'b', 'l', 'e']

/-- `tolower` of the C locale. -/
def toLower (b : Byte) : Byte := if 0x41 ≤ b ∧ b ≤ 0x5a then b + 0x20 else b

/-- `ovs_instruction_type_from_name`, which compares with `strcasecmp`. -/
def instructionTypeFromName (name : Text) : Option InstructionType :=
  InstructionType.ovsInstructions.find? fun t => name.map toLower = t.name.map toLower

/-! ## `ofputil_parse_key_value` -/

/-- What stands before the parenthesis that closes the given number of open ones, and what
stands behind it. -/
def closing : Nat → Text → Option (Text × Text)
  | _, [] => none
  | level, b :: rest =>
    if b = closeParen ∧ level = 1 then some ([], rest)
    else
      let level := if b = openParen then level + 1 else if b = closeParen then level - 1 else level
      (closing level rest).map fun r => (b :: r.1, r.2)

structure KeyValue where
  key : Text
  value : Text
  /-- Where the next call starts. -/
  pos : Text

/-- Parentheses that are never closed leave the position behind the end of the string. -/
def parseKeyValue (string : Text) : Except Fault (Option KeyValue) :=
  match string.dropWhile isSeparator with
  | [] => .ok none
  | b :: pos =>
    let key := (b :: pos).takeWhile (!isDelimiter ·)
    match (b :: pos).dropWhile (!isDelimiter ·) with
    | [] => .ok (some ⟨key, [], []⟩)
    | d :: rest =>
      if d = colon ∨ d = equals then
        .ok (some ⟨key, rest.takeWhile (!isSeparator ·), (rest.dropWhile (!isSeparator ·)).tail⟩)
      else if d = openParen then
        match closing 1 rest with
        | some (value, pos) => .ok (some ⟨key, value, pos⟩)
        | none => .error .readOutside
      else .ok (some ⟨key, [], rest⟩)

theorem closing_length {level : Nat} {text value rest : Text}
    (h : closing level text = some (value, rest)) : rest.length < text.length := by
  induction text generalizing level value with
  | nil => cases h
  | cons b text ih =>
    rw [closing] at h
    split at h
    · obtain ⟨-, rfl⟩ := Prod.mk.inj (Option.some.inj h)
      exact Nat.lt_succ_self _
    · obtain ⟨r, hr, heq⟩ := Option.map_eq_some_iff.mp h
      obtain ⟨-, rfl⟩ := Prod.mk.inj heq
      exact (ih hr).trans (Nat.lt_succ_self _)

theorem dropWhile_length {p : Byte → Bool} (text : Text) :
    (text.dropWhile p).length ≤ text.length := (List.dropWhile_sublist p).length_le

/-- A call that finds a key gets on. -/
theorem parseKeyValue_length {string : Text} {kv : KeyValue}
    (h : parseKeyValue string = .ok (some kv)) : kv.pos.length < string.length := by
  have hskip := dropWhile_length (p := isSeparator) string
  rw [parseKeyValue] at h
  split at h
  · cases h
  rename_i b pos hpos
  rw [hpos] at hskip
  refine Nat.lt_of_lt_of_le ?_ hskip
  have hkey := dropWhile_length (p := fun x => !isDelimiter x) (b :: pos)
  dsimp only at h
  split at h
  · obtain rfl := Option.some.inj (Except.ok.inj h)
    exact Nat.zero_lt_succ _
  rename_i d rest hrest
  rw [hrest] at hkey
  refine Nat.lt_of_lt_of_le ?_ hkey
  split at h
  · obtain rfl := Option.some.inj (Except.ok.inj h)
    have hvalue := dropWhile_length (p := fun x => !isSeparator x) rest
    simp only [List.length_tail, List.length_cons]
    omega
  split at h
  · split at h
    · rename_i value after hclosing
      obtain rfl := Option.some.inj (Except.ok.inj h)
      exact (closing_length hclosing).trans (Nat.lt_succ_self _)
    · cases h
  · obtain rfl := Option.some.inj (Except.ok.inj h)
    exact Nat.lt_succ_self _

/-! ## `str_to_inst_ofpacts` -/

inductive ParseError
  /-- "%s isn't supported. Just write actions then it is interpreted as apply_actions" -/
  | isntSupported (inst : Text)
  /-- "instruction %s may be specified only once" -/
  | onlyOnce (inst : Text)
  /-- "instruction %s must be specified before %s" -/
  | mustBeBefore (inst prevInst : Text)
  /-- "Incorrect instruction ordering" -/
  | incorrectInstructionOrdering
  /-- An error of an action or of the argument of an instruction. -/
  | other (message : Text)
  | fault (f : Fault)

/-- The texts of actions, and of instructions other than `goto_fp`. -/
structure TextCodec (A : Type) where
  /-- `ofpact_format`. -/
  format : Ofpact A → Text
  /-- `str_to_ofpact__`: what is appended for an action, its argument, what comes behind them and
  the number of actions before. -/
  strToOfpact : Text → Text → Text → Nat → Except ParseError (List (Ofpact A))
  /-- The case of `parse_named_instruction` for a type and an argument. -/
  instruction : InstructionType → Text → Except ParseError (Ofpact A)

/-- The ofpact that the switch over the type appends. That of `goto_fp` is all zero: its argument
is not looked at. -/
def TextCodec.putInstruction (c : TextCodec A) (type : InstructionType) (arg : Text) :
    Except ParseError (Ofpact A) :=
  match type with
  | .gotoFp => .ok (.gotoFp 0)
  | _ => c.instruction type arg

def TextCodec.parseNamedInstruction (c : TextCodec A) (type : InstructionType) (arg : Text)
    (ofpacts : List (Ofpact A)) : Except ParseError (List (Ofpact A)) := do
  let ofpact ← c.putInstruction type arg
  match ofpactsVerify (ofpacts ++ [ofpact]) with
  | .ok () => return ofpacts ++ [ofpact]
  | .error _ => throw .incorrectInstructionOrdering

/-- The previous instruction, if any, has to come before this one. -/
def checkOrder (inst : Text) (type : InstructionType) :
    Option (Text × InstructionType) → Except ParseError Unit
  | none => .ok ()
  | some (prevInst, prevType) =>
    if type.value ≤ prevType.value then
      if type = prevType then .error (.onlyOnce inst) else .error (.mustBeBefore inst prevInst)
    else .ok ()

/-- What is appended for one key and its argument, and the type that it counts as. -/
def TextCodec.parseOne (c : TextCodec A) (kv : KeyValue) (ofpacts : List (Ofpact A))
    (nActions : Nat) : Except ParseError (List (Ofpact A) × InstructionType) :=
  match instructionTypeFromName kv.key with
  | none => do
    let acts ← c.strToOfpact kv.pos kv.key kv.value nActions
    return (ofpacts ++ acts, .applyActions)
  | some .applyActions => .error (.isntSupported kv.key)
  | some type => do return (← c.parseNamedInstruction type kv.value ofpacts, type)

/-- The loop. An action right behind another belongs to the same instruction. -/
def TextCodec.parseRest (c : TextCodec A) (pos : Text) (ofpacts : List (Ofpact A))
    (prev : Option (Text × InstructionType)) (nActions : Nat) :
    Except ParseError (List (Ofpact A)) :=
  match _h : parseKeyValue pos with
  | .error f => .error (.fault f)
  | .ok none => .ok ofpacts
  | .ok (some kv) =>
    match c.parseOne kv ofpacts nActions with
    | .error e => .error e
    | .ok (ofpacts, type) =>
      if type = .applyActions ∧ prev.map Prod.snd = some .applyActions then
        c.parseRest kv.pos ofpacts prev (nActions + 1)
      else
        match checkOrder kv.key type prev with
        | .error e => .error e
        | .ok () => c.parseRest kv.pos ofpacts (some (kv.key, type)) (nActions + 1)
termination_by pos.length
decreasing_by
  · exact parseKeyValue_length _h
  · exact parseKeyValue_length _h

def TextCodec.strToInstOfpacts (c : TextCodec A) (str : Text) :
    Except ParseError (List (Ofpact A)) :=
  c.parseRest str [] none 0

/-! ## `ofpacts_format` -/

/-- `ofpact_format`. -/
def TextCodec.ofpactFormat (c : TextCodec A) : Ofpact A → Text
  | .gotoFp bitmap => InstructionType.gotoFp.name ++ colon :: decimal bitmap.toNat
  | a => c.format a

def TextCodec.ofpactsFormat (c : TextCodec A) : List (Ofpact A) → Text
  | [] => ofChars ['d', 'r', 'o', 'p']
  | a :: rest => c.ofpactFormat a ++ rest.flatMap fun b => comma :: c.ofpactFormat b

/-! ## Reading what was printed -/

/-- What may stand behind the text of an ofpact. -/
def Ends (rest : Text) : Prop := ∀ b ∈ rest.head?, b = comma

/-- The text of an ofpact, wherever it stands, is read as that ofpact. -/
def TextCodec.Reads (c : TextCodec A) (a : Ofpact A) : Prop :=
  ∀ rest, Ends rest → ∃ kv, parseKeyValue (c.format a ++ rest) = .ok (some kv) ∧
    (kv.pos = rest ∨ kv.pos = rest.tail) ∧
    if a.instructionType = .applyActions then
      instructionTypeFromName kv.key = none ∧
        ∀ n, c.strToOfpact kv.pos kv.key kv.value n = .ok [a]
    else instructionTypeFromName kv.key = some a.instructionType ∧
      c.instruction a.instructionType kv.value = .ok a

/-- What is left of an ofpact that is read back. -/
def Ofpact.dropBitmap : Ofpact A → Ofpact A
  | gotoFp _ => gotoFp 0
  | a => a

@[simp] theorem Ofpact.instructionType_dropBitmap (a : Ofpact A) :
    a.dropBitmap.instructionType = a.instructionType := by
  cases a <;> rfl

theorem parseKeyValue_comma (text : Text) : parseKeyValue (comma :: text) = parseKeyValue text := by
  have hskip : (comma :: text).dropWhile isSeparator = text.dropWhile isSeparator :=
    List.dropWhile_cons_of_pos (by decide)
  rw [parseKeyValue, parseKeyValue, hskip]

theorem takeWhile_until (p : Byte → Bool) {front rest : Text} (hfront : ∀ b ∈ front, p b = true)
    (hrest : ∀ b ∈ rest.head?, p b = false) :
    (front ++ rest).takeWhile p = front ∧ (front ++ rest).dropWhile p = rest := by
  rw [List.takeWhile_append_of_pos hfront, List.dropWhile_append_of_pos hfront]
  cases rest with
  | nil => simp
  | cons b rest =>
    have hb : ¬ p b = true := by rw [hrest b rfl]; decide
    rw [List.takeWhile_cons_of_neg hb, List.dropWhile_cons_of_neg hb, List.append_nil]
    exact ⟨rfl, rfl⟩

/-- A key and a value with a colon between them. -/
theorem parseKeyValue_colon {key value rest : Text} (hne : key ≠ [])
    (hkey : ∀ b ∈ key, isDelimiter b = false) (hvalue : ∀ b ∈ value, isSeparator b = false)
    (hrest : Ends rest) :
    parseKeyValue (key ++ colon :: value ++ rest) = .ok (some ⟨key, value, rest.tail⟩) := by
  have hskip : (key ++ colon :: value ++ rest).dropWhile isSeparator =
      key ++ colon :: value ++ rest := by
    cases key with
    | nil => exact absurd rfl hne
    | cons b key =>
      have hb := hkey b List.mem_cons_self
      rw [isDelimiter, Bool.or_eq_false_iff] at hb
      exact List.dropWhile_cons_of_neg (by rw [hb.2]; decide)
  have hcolon : ∀ b ∈ (colon :: (value ++ rest)).head?, (!isDelimiter b) = false := by
    intro b hb
    obtain rfl : colon = b := Option.some.inj hb
    decide
  have hcomma : ∀ b ∈ rest.head?, (!isSeparator b) = false := by
    intro b hb
    rw [hrest b hb]
    decide
  obtain ⟨htake, hdrop⟩ := takeWhile_until (!isDelimiter ·) (by simpa using hkey) hcolon
  obtain ⟨hvtake, hvdrop⟩ := takeWhile_until (!isSeparator ·) (by simpa using hvalue) hcomma
  rw [List.append_assoc, List.cons_append] at hskip ⊢
  cases key with
  | nil => exact absurd rfl hne
  | cons b key =>
    rw [List.cons_append] at hskip htake hdrop ⊢
    rw [parseKeyValue, hskip]
    dsimp only
    rw [hdrop]
    dsimp only
    rw [if_pos (.inl rfl), htake, hvtake, hvdrop]

/-! ## One ofpact -/

theorem isSeparator_of_mem_decimal {n : Nat} {b : Byte} (h : b ∈ decimal n) :
    isSeparator b = false := by
  have hdigit := isDigit_of_mem_decimal h
  rw [Bool.eq_false_iff]
  intro hsep
  have hmem : b ∈ [comma, 0x20, 0x09, 0x0d, 0x0a] := List.contains_iff_mem.mp hsep
  simp only [List.mem_cons, List.not_mem_nil, or_false] at hmem
  rcases hmem with rfl | rfl | rfl | rfl | rfl <;> exact absurd hdigit (by decide)

theorem parseNamedInstruction_eq {c : TextCodec A} {type : InstructionType} {arg : Text}
    {ofpacts : List (Ofpact A)} {a : Ofpact A} (hput : c.putInstruction type arg = .ok a)
    (hverify : Verified (ofpacts ++ [a])) :
    c.parseNamedInstruction type arg ofpacts = .ok (ofpacts ++ [a]) := by
  simp only [TextCodec.parseNamedInstruction, hput, bind, Except.bind, hverify.verify]
  rfl

theorem parseOne_named {c : TextCodec A} {kv : KeyValue} {type : InstructionType}
    {ofpacts : List (Ofpact A)} {a : Ofpact A} (hname : instructionTypeFromName kv.key = some type)
    (htype : type ≠ .applyActions) (hput : c.putInstruction type kv.value = .ok a)
    (hverify : Verified (ofpacts ++ [a])) (n : Nat) :
    c.parseOne kv ofpacts n = .ok (ofpacts ++ [a], type) := by
  have hparse := parseNamedInstruction_eq hput hverify
  rw [TextCodec.parseOne, hname]
  cases type with
  | applyActions => exact absurd rfl htype
  | meter | clearActions | writeActions | writeMetadata | gotoFp | gotoTable =>
    simp only [hparse, bind, Except.bind]
    rfl

/-- The text of `goto_fp` is read without its argument. -/
theorem parseOne_gotoFp (c : TextCodec A) (bitmap : Byte) {rest : Text} (hrest : Ends rest)
    {ofpacts : List (Ofpact A)} (hverify : Verified (ofpacts ++ [.gotoFp 0])) (n : Nat) :
    ∃ kv, parseKeyValue (c.ofpactFormat (.gotoFp bitmap) ++ rest) = .ok (some kv) ∧
      kv.pos = rest.tail ∧ c.parseOne kv ofpacts n = .ok (ofpacts ++ [.gotoFp 0], .gotoFp) := by
  have hkey : ∀ b ∈ InstructionType.gotoFp.name, isDelimiter b = false := by decide
  have hname : instructionTypeFromName InstructionType.gotoFp.name = some .gotoFp := by decide
  exact ⟨_, parseKeyValue_colon (by decide) hkey (fun b => isSeparator_of_mem_decimal) hrest, rfl,
    parseOne_named hname (by decide) rfl hverify n⟩

theorem putInstruction_of_ne (c : TextCodec A) {type : InstructionType} (h : type ≠ .gotoFp)
    (arg : Text) : c.putInstruction type arg = c.instruction type arg := by
  cases type with
  | gotoFp => exact absurd rfl h
  | meter | applyActions | clearActions | writeActions | writeMetadata | gotoTable => rfl

theorem parseOne_reads {c : TextCodec A} {a : Ofpact A} (ha : a.instructionType ≠ .gotoFp)
    (hreads : c.Reads a) {rest : Text} (hrest : Ends rest) {ofpacts : List (Ofpact A)}
    (hverify : Verified (ofpacts ++ [a])) (n : Nat) :
    ∃ kv, parseKeyValue (c.format a ++ rest) = .ok (some kv) ∧
      (kv.pos = rest ∨ kv.pos = rest.tail) ∧
      c.parseOne kv ofpacts n = .ok (ofpacts ++ [a], a.instructionType) := by
  obtain ⟨kv, hparse, hpos, hread⟩ := hreads rest hrest
  refine ⟨kv, hparse, hpos, ?_⟩
  by_cases happly : a.instructionType = .applyActions
  · rw [if_pos happly] at hread
    simp only [TextCodec.parseOne, hread.1, hread.2 n, bind, Except.bind, happly]
    rfl
  · rw [if_neg happly] at hread
    have hput : c.putInstruction a.instructionType kv.value = .ok a :=
      (putInstruction_of_ne c ha kv.value).trans hread.2
    exact parseOne_named hread.1 happly hput hverify n

/-- What is read for an ofpact behind others. -/
theorem parseOne_format (c : TextCodec A) {a : Ofpact A}
    (hreads : a.instructionType ≠ .gotoFp → c.Reads a) {rest : Text} (hrest : Ends rest)
    {ofpacts : List (Ofpact A)} (hverify : Verified (ofpacts ++ [a.dropBitmap])) (n : Nat) :
    ∃ kv, parseKeyValue (c.ofpactFormat a ++ rest) = .ok (some kv) ∧
      (kv.pos = rest ∨ kv.pos = rest.tail) ∧
      c.parseOne kv ofpacts n = .ok (ofpacts ++ [a.dropBitmap], a.instructionType) := by
  cases a with
  | gotoFp bitmap =>
    obtain ⟨kv, hparse, hpos, hone⟩ := parseOne_gotoFp c bitmap hrest hverify n
    exact ⟨kv, hparse, .inr hpos, hone⟩
  | action | meter | clearActions | writeActions | writeMetadata | gotoTable =>
    have hother := hreads (by simp [Ofpact.instructionType])
    exact parseOne_reads (by simp [Ofpact.instructionType]) hother hrest hverify n

/-! ## The list -/

theorem Precedes.trans {r s t : InstructionType} (hrs : Precedes r s) (hst : Precedes s t) :
    Precedes r t := by
  cases r <;> cases s <;> cases t <;> revert hrs hst <;> decide

/-- The order that `ofpacts_verify` checks from one ofpact to the next holds of any two. -/
theorem verified_of_verifyRest {t : InstructionType} {ofpacts : List (Ofpact A)}
    (h : verifyRest t ofpacts = .ok ()) :
    (∀ a ∈ ofpacts, Precedes t a.instructionType) ∧ Verified ofpacts := by
  induction ofpacts generalizing t with
  | nil => exact ⟨fun a ha => (by cases ha), List.Pairwise.nil⟩
  | cons a rest ih =>
    rw [verifyRest] at h
    by_cases hnext : Precedes t a.instructionType
    case neg =>
      rw [if_pos (refused_iff_not_precedes.mpr hnext)] at h
      cases h
    rw [if_neg fun hrefused => refused_iff_not_precedes.mp hrefused hnext] at h
    obtain ⟨hfirst, hrest⟩ := ih h
    refine ⟨fun b hb => ?_, List.pairwise_cons.mpr ⟨hfirst, hrest⟩⟩
    rcases List.mem_cons.mp hb with rfl | hmem
    · exact hnext
    · exact hnext.trans (hfirst b hmem)

theorem verified_iff {ofpacts : List (Ofpact A)} :
    ofpactsVerify ofpacts = .ok () ↔ Verified ofpacts := by
  refine ⟨fun h => ?_, Verified.verify⟩
  cases ofpacts with
  | nil => exact List.Pairwise.nil
  | cons a rest => exact List.pairwise_cons.mpr (verified_of_verifyRest h)

theorem verified_dropBitmap {ofpacts : List (Ofpact A)} :
    Verified (ofpacts.map Ofpact.dropBitmap) ↔ Verified ofpacts := by
  simp only [Verified, List.pairwise_map, Ofpact.instructionType_dropBitmap]

/-- What the loop does with a key that is read. -/
theorem parseRest_of_parseOne {c : TextCodec A} {pos : Text} {ofpacts ofpacts' : List (Ofpact A)}
    {prev : Option (Text × InstructionType)} {n : Nat} {kv : KeyValue} {type : InstructionType}
    (hkv : parseKeyValue pos = .ok (some kv))
    (hone : c.parseOne kv ofpacts n = .ok (ofpacts', type)) :
    c.parseRest pos ofpacts prev n =
      if type = .applyActions ∧ prev.map Prod.snd = some .applyActions then
        c.parseRest kv.pos ofpacts' prev (n + 1)
      else
        match checkOrder kv.key type prev with
        | .error e => .error e
        | .ok () => c.parseRest kv.pos ofpacts' (some (kv.key, type)) (n + 1) := by
  rw [TextCodec.parseRest]
  split
  · rename_i heq
    rw [hkv] at heq
    cases heq
  · rename_i heq
    rw [hkv] at heq
    cases heq
  · rename_i heq
    rw [hkv] at heq
    obtain rfl := Option.some.inj (Except.ok.inj heq)
    rw [hone]

theorem parseRest_nil (c : TextCodec A) (ofpacts : List (Ofpact A))
    (prev : Option (Text × InstructionType)) (n : Nat) :
    c.parseRest [] ofpacts prev n = .ok ofpacts := by
  rw [TextCodec.parseRest]
  rfl

/-- The order check of the loop passes where that of `ofpacts_verify` does. -/
theorem checkOrder_of_precedes {inst : Text} {type : InstructionType}
    {prev : Option (Text × InstructionType)}
    (hprev : ∀ p ∈ prev, Precedes p.2 type)
    (hnot : ¬ (type = .applyActions ∧ prev.map Prod.snd = some .applyActions)) :
    checkOrder inst type prev = .ok () := by
  cases prev with
  | none => rfl
  | some p =>
    have hlt : p.2.value < type.value := by
      have hp := hprev p rfl
      rw [Precedes] at hp
      split at hp
      · rename_i happly
        have hne : type ≠ .applyActions := fun h => hnot ⟨h, congrArg some happly⟩
        rw [happly] at hp ⊢
        revert hne hp
        cases type <;> decide
      · exact hp
    rw [checkOrder, if_neg (by omega)]

theorem ends_tail (c : TextCodec A) (l : List (Ofpact A)) :
    Ends (l.flatMap fun b => comma :: c.ofpactFormat b) := by
  intro b hb
  cases l with
  | nil => cases hb
  | cons a l => exact (Option.some.inj hb).symm

/-- The loop, from where a number of ofpacts has been read. It goes on at the comma or right
behind it. -/
theorem parseRest_format (c : TextCodec A) {rest : List (Ofpact A)}
    (hreads : ∀ a ∈ rest, a.instructionType ≠ .gotoFp → c.Reads a) (done : List (Ofpact A))
    (hverified : Verified (done ++ rest)) (prev : Option (Text × InstructionType))
    (hprev : prev.map Prod.snd = done.getLast?.map Ofpact.instructionType) {pos : Text}
    (hpos : pos = (rest.flatMap fun b => comma :: c.ofpactFormat b) ∨
      pos = (rest.flatMap fun b => comma :: c.ofpactFormat b).tail) (n : Nat) :
    c.parseRest pos (done.map Ofpact.dropBitmap) prev n =
      .ok ((done ++ rest).map Ofpact.dropBitmap) := by
  induction rest generalizing done prev pos n with
  | nil =>
    obtain rfl : pos = [] := hpos.elim id id
    rw [parseRest_nil, List.append_nil]
  | cons a rest ih =>
    have happend : done ++ a :: rest = (done ++ [a]) ++ rest := by simp
    rw [happend] at hverified ⊢
    have hfront : Verified ((done ++ [a]).map Ofpact.dropBitmap) :=
      verified_dropBitmap.mpr (List.pairwise_append.mp hverified).1
    rw [List.map_append, List.map_singleton] at hfront
    obtain ⟨kv, hkv, hafter, hone⟩ :=
      parseOne_format c (hreads a List.mem_cons_self) (ends_tail c rest) hfront n
    have hread : parseKeyValue pos = .ok (some kv) := by
      rcases hpos with rfl | rfl
      · rw [List.flatMap_cons, List.cons_append, parseKeyValue_comma]
        exact hkv
      · exact hkv
    have hnext : ∀ prev', prev'.map Prod.snd = some a.instructionType →
        c.parseRest kv.pos (done.map Ofpact.dropBitmap ++ [a.dropBitmap]) prev' (n + 1) =
          .ok (((done ++ [a]) ++ rest).map Ofpact.dropBitmap) := by
      intro prev' hprev'
      have h := ih (fun b hb => hreads b (List.mem_cons_of_mem a hb)) (done ++ [a]) hverified
        prev' (by rw [hprev', List.getLast?_concat]; rfl) hafter (n + 1)
      rwa [List.map_append, List.map_singleton] at h
    rw [parseRest_of_parseOne hread hone]
    split
    · rename_i hboth
      exact hnext prev (by rw [hboth.2, hboth.1])
    · rename_i hnot
      have hbefore : ∀ p ∈ prev, Precedes p.2 a.instructionType := by
        intro p hp
        obtain rfl : prev = some p := hp
        obtain ⟨last, hlast, htype⟩ := Option.map_eq_some_iff.mp hprev.symm
        rw [← htype]
        have hpair := (List.pairwise_append.mp (List.pairwise_append.mp hverified).1).2.2
        exact hpair last (List.mem_of_getLast? hlast) a List.mem_cons_self
      rw [checkOrder_of_precedes hbefore hnot]
      exact hnext _ rfl

/-- The text of a list is read as the list without the arguments of `goto_fp`. -/
theorem strToInstOfpacts_format (c : TextCodec A) {l : List (Ofpact A)}
    (hverify : ofpactsVerify l = .ok ()) (hne : l ≠ [])
    (hreads : ∀ a ∈ l, a.instructionType ≠ .gotoFp → c.Reads a) :
    c.strToInstOfpacts (c.ofpactsFormat l) = .ok (l.map Ofpact.dropBitmap) := by
  cases l with
  | nil => exact absurd rfl hne
  | cons a rest =>
    exact parseRest_format c hreads [] (verified_iff.mp hverify) none rfl (.inr rfl) 0

theorem gotoFp_unique {l : List (Ofpact A)} (hverify : ofpactsVerify l = .ok ()) {b b' : Byte}
    (hb : Ofpact.gotoFp b ∈ l) (hb' : Ofpact.gotoFp b' ∈ l) : b = b' := by
  have hpair := List.pairwise_iff_getElem.mp (verified_iff.mp hverify)
  have hnot : ¬ Precedes .gotoFp .gotoFp := by decide
  obtain ⟨i, hi, hgi⟩ := List.mem_iff_getElem.mp hb
  obtain ⟨j, hj, hgj⟩ := List.mem_iff_getElem.mp hb'
  rcases Nat.lt_trichotomy i j with hlt | rfl | hlt
  · have hprecedes := hpair i j hi hj hlt
    rw [hgi, hgj] at hprecedes
    exact absurd hprecedes hnot
  · exact Ofpact.gotoFp.inj (hgi.symm.trans hgj)
  · have hprecedes := hpair j i hj hi hlt
    rw [hgi, hgj] at hprecedes
    exact absurd hprecedes hnot

/-- A list with `goto_fp` is read back as it was printed if and only if the argument of
`goto_fp` is 0. -/
theorem strToInstOfpacts_format_iff (c : TextCodec A) {l : List (Ofpact A)} {bitmap : Byte}
    (hverify : ofpactsVerify l = .ok ()) (hfp : .gotoFp bitmap ∈ l)
    (hreads : ∀ a ∈ l, a.instructionType ≠ .gotoFp → c.Reads a) :
    c.strToInstOfpacts (c.ofpactsFormat l) = .ok l ↔ bitmap = 0 := by
  rw [strToInstOfpacts_format c hverify (List.ne_nil_of_mem hfp) hreads, Except.ok.injEq]
  constructor
  · intro heq
    have hmem : (Ofpact.gotoFp 0 : Ofpact A) ∈ l := heq ▸ List.mem_map_of_mem hfp
    exact gotoFp_unique hverify hfp hmem
  · rintro rfl
    have hsame : ∀ a ∈ l, a.dropBitmap = a := by
      intro a ha
      cases a with
      | gotoFp b => rw [gotoFp_unique hverify ha hfp]; rfl
      | action | meter | clearActions | writeActions | writeMetadata | gotoTable => rfl
    exact (List.map_congr_left hsame).trans (List.map_id l)

/-- Of all actions only `output:1`, and no instruction besides `goto_fp`. -/
def outputText : TextCodec Unit where
  format
    | .action () => ofChars ['o', 'u', 't', 'p', 'u', 't'] ++ colon :: decimal 1
    | _ => []
  strToOfpact _ act arg _ :=
    if act = ofChars ['o', 'u', 't', 'p', 'u', 't'] ∧ arg = decimal 1 then .ok [.action ()]
    else .error (.other act)
  instruction _ arg := .error (.other arg)

theorem outputText_reads : outputText.Reads (.action ()) := by
  intro rest hrest
  have hkey : ∀ b ∈ ofChars ['o', 'u', 't', 'p', 'u', 't'], isDelimiter b = false := by decide
  have hname : instructionTypeFromName (ofChars ['o', 'u', 't', 'p', 'u', 't']) = none := by decide
  have hvalue : ∀ b ∈ decimal 1, isSeparator b = false := fun b => isSeparator_of_mem_decimal
  have hact : ∀ pos n, outputText.strToOfpact pos (ofChars ['o', 'u', 't', 'p', 'u', 't'])
      (decimal 1) n = .ok [.action ()] := by
    intro pos n
    simp [outputText]
  exact ⟨_, parseKeyValue_colon (by decide) hkey hvalue hrest, .inr rfl, hname, hact _⟩

theorem outputText_reads_list (bitmap : Byte) :
    ∀ a ∈ [Ofpact.action (), .gotoFp bitmap], a.instructionType ≠ .gotoFp → outputText.Reads a := by
  intro a ha htype
  rcases List.mem_cons.mp ha with rfl | ha
  · exact outputText_reads
  · rw [List.mem_singleton.mp ha] at htype
    exact absurd rfl htype

/-- `output:1,goto_fp:0`. -/
theorem strToInstOfpacts_format_iff_zero :
    outputText.strToInstOfpacts (outputText.ofpactsFormat [.action (), .gotoFp 0]) =
      .ok [.action (), .gotoFp 0] :=
  (strToInstOfpacts_format_iff outputText rfl (List.mem_cons_of_mem _ List.mem_cons_self)
    (outputText_reads_list 0)).mpr rfl

/-- `output:1,goto_fp:5` is read as `output:1,goto_fp:0`. -/
theorem goto_fp_argument_lost :
    ofpactsVerify [.action (), .gotoFp 5] = .ok () ∧
    (∀ a ∈ [Ofpact.action (), .gotoFp 5], a.instructionType ≠ .gotoFp → outputText.Reads a) ∧
    outputText.strToInstOfpacts (outputText.ofpactsFormat [.action (), .gotoFp 5]) =
      .ok [.action (), .gotoFp 0] ∧
    outputText.strToInstOfpacts (outputText.ofpactsFormat [.action (), .gotoFp 5]) ≠
      .ok [.action (), .gotoFp 5] := by
  have hread : outputText.strToInstOfpacts (outputText.ofpactsFormat [.action (), .gotoFp 5]) =
      .ok [.action (), .gotoFp 0] :=
    strToInstOfpacts_format outputText rfl (List.cons_ne_nil _ _) (outputText_reads_list 5)
  refine ⟨rfl, outputText_reads_list 5, hread, ?_⟩
  rw [hread]
  simp

end Sdpa.Switch.Instructions
