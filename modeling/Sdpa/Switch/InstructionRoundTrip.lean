import Sdpa.Switch.InstructionSets

/-!
# Instruction sets that are written and read again

What a put writes for verified ofpacts is a well-formed instruction set, less the
`WRITE_ACTIONS` without actions. A pull reads it back to the same ofpacts, as long as the
order of the pull is the one that `ofpacts_verify` asks for.
-/
namespace Sdpa.Switch.Instructions

open Sdpa.Lib.Endian

variable {A : Type} {c : ActionCodec A}

/-! ## What a put writes -/

def Ofpact.act? : Ofpact A → Option A
  | action act => some act
  | _ => none

/-- The actions of a `WRITE_ACTIONS`. -/
def Ofpact.set : Ofpact A → List A
  | writeActions acts => acts
  | _ => []

/-- A `WRITE_ACTIONS` without actions, which a put leaves out. -/
def Ofpact.writesNothing : Ofpact A → Bool
  | writeActions [] => true
  | _ => false

/-- An instruction with these actions can tell its length. -/
def Fits (c : ActionCodec A) (acts : List A) : Prop :=
  8 + (acts.flatMap (c.toOpenflow .ofp13)).length < 2 ^ 16

instance (acts : List A) : Decidable (Fits c acts) := inferInstanceAs (Decidable (_ < _))

theorem flatMap_ne_nil (hc : c.RoundTrips .ofp13) {acts : List A} (h : acts ≠ []) :
    0 < (acts.flatMap (c.toOpenflow .ofp13)).length := by
  by_contra hzero
  have hempty : acts.flatMap (c.toOpenflow .ofp13) = [] := by
    apply List.eq_nil_of_length_eq_zero
    omega
  have hacts := hc.from_to acts
  have hnil : c.fromOpenflow .ofp13 [] = .ok [] := hc.from_to []
  rw [hempty, hnil] at hacts
  have hmap := Except.ok.inj hacts
  exact h (List.map_eq_nil_iff.mp hmap.symm)

theorem aligned_flatMap (hc : c.RoundTrips .ofp13) (acts : List A) :
    8 ∣ (acts.flatMap (c.toOpenflow .ofp13)).length := by
  induction acts with
  | nil => exact Nat.dvd_zero 8
  | cons act acts ih =>
    rw [List.flatMap_cons, List.length_append]
    exact Nat.dvd_add (hc.aligned act) ih

/-- The actions, encoded. -/
def encoded (hc : c.RoundTrips .ofp13) (acts : List A) (hfits : Fits c acts) : ActionBytes :=
  ⟨acts.flatMap (c.toOpenflow .ofp13), aligned_flatMap hc acts, hfits⟩

/-- `bytes`, written for `ofpacts`, are the instructions `js`. -/
structure Puts (c : ActionCodec A) (bytes : List Byte) (ofpacts : List (Ofpact A))
    (js : List Instruction) : Prop where
  wires : bytes = js.flatMap Instruction.wire
  decodable : ∀ j ∈ js, j.Decodable c .ofp13
  kept : js.flatMap (Instruction.ofpacts c .ofp13) = ofpacts.filter (!·.writesNothing)
  sorted : js.Pairwise fun i j => i.type.value < j.type.value
  types : ∀ j ∈ js, ∃ a ∈ ofpacts, a.instructionType = j.type

theorem Puts.nil : Puts c [] [] [] where
  wires := rfl
  decodable := nofun
  kept := rfl
  sorted := List.Pairwise.nil
  types := nofun

/-- One more instruction in front, of a type before all others. -/
theorem Puts.cons {bytes : List Byte} {front rest : List (Ofpact A)} {js : List Instruction}
    (h : Puts c bytes rest js) {j : Instruction} (hdecode : j.decode c .ofp13 = .ok front)
    (hkept : ∀ a ∈ front, a.writesNothing = false)
    (htype : ∃ a ∈ front, a.instructionType = j.type)
    (hlt : ∀ b ∈ rest, j.type.value < b.instructionType.value) :
    Puts c (j.wire ++ bytes) (front ++ rest) (j :: js) where
  wires := by
    rw [h.wires, List.flatMap_cons]
  decodable := by
    intro i hi
    rcases List.mem_cons.mp hi with rfl | hmem
    · exact ⟨front, hdecode⟩
    · exact h.decodable i hmem
  kept := by
    have hofpacts : j.ofpacts c .ofp13 = front := by
      rw [Instruction.ofpacts, hdecode]
      rfl
    have hfront : front.filter (!·.writesNothing) = front := by
      rw [List.filter_eq_self]
      intro a ha
      rw [hkept a ha]
      rfl
    rw [List.flatMap_cons, h.kept, hofpacts, List.filter_append, hfront]
  sorted := by
    rw [List.pairwise_cons]
    refine ⟨?_, h.sorted⟩
    intro i hi
    obtain ⟨b, hb, hbtype⟩ := h.types i hi
    rw [← hbtype]
    exact hlt b hb
  types := by
    intro i hi
    rcases List.mem_cons.mp hi with rfl | hmem
    · obtain ⟨a, ha, hatype⟩ := htype
      exact ⟨a, List.mem_append_left rest ha, hatype⟩
    · obtain ⟨b, hb, hbtype⟩ := h.types i hmem
      exact ⟨b, List.mem_append_right front hb, hbtype⟩

theorem Puts.skip {bytes : List Byte} {rest : List (Ofpact A)} {js : List Instruction}
    (h : Puts c bytes rest js) : Puts c bytes (.writeActions [] :: rest) js where
  wires := h.wires
  decodable := h.decodable
  kept := h.kept
  sorted := h.sorted
  types := by
    intro i hi
    obtain ⟨b, hb, hbtype⟩ := h.types i hi
    exact ⟨b, List.mem_cons_of_mem _ hb, hbtype⟩

/-- The ofpacts are in order, and each instruction that is written for them tells its length. -/
structure Writable (c : ActionCodec A) (ofpacts : List (Ofpact A)) : Prop where
  verified : Verified ofpacts
  fits : Fits c (ofpacts.filterMap Ofpact.act?)
  sets : ∀ acts, .writeActions acts ∈ ofpacts → Fits c acts ∧
    fromOpenflow11ForActionSet c .ofp13 (acts.flatMap (c.toOpenflow .ofp13)) = .ok acts

theorem Writable.of_append {front rest : List (Ofpact A)} (h : Writable c (front ++ rest)) :
    Writable c rest where
  verified := (List.pairwise_append.mp h.verified).2.1
  fits := by
    have hfits := h.fits
    rw [Fits, List.filterMap_append, List.flatMap_append, List.length_append] at hfits
    rw [Fits]
    omega
  sets := fun acts hmem => h.sets acts (List.mem_append_right front hmem)

theorem Writable.tail {a : Ofpact A} {rest : List (Ofpact A)} (h : Writable c (a :: rest)) :
    Writable c rest := by
  have happend : Writable c ([a] ++ rest) := h
  exact happend.of_append

theorem Writable.lt {a : Ofpact A} {rest : List (Ofpact A)} (h : Writable c (a :: rest))
    (ha : a.instructionType ≠ .applyActions) :
    ∀ b ∈ rest, a.instructionType.value < b.instructionType.value := by
  intro b hb
  have hab := (List.pairwise_cons.mp h.verified).1 b hb
  rwa [Precedes, if_neg ha] at hab

theorem spanActions_eq (ofpacts : List (Ofpact A)) :
    (spanActions ofpacts).1.map .action ++ (spanActions ofpacts).2 = ofpacts := by
  induction ofpacts with
  | nil => rfl
  | cons a rest ih =>
    cases a with
    | action act =>
      show Ofpact.action act :: ((spanActions rest).1.map .action ++ (spanActions rest).2) = _
      rw [ih]
    | _ => rfl

theorem spanActions_head (ofpacts : List (Ofpact A)) (act : A) (rest : List (Ofpact A)) :
    (spanActions ofpacts).2 ≠ .action act :: rest := by
  induction ofpacts with
  | nil => nofun
  | cons a tail ih =>
    cases a with
    | action b => exact ih
    | _ => nofun

theorem filterMap_span (act : A) (rest : List (Ofpact A)) :
    (Ofpact.action act :: rest).filterMap Ofpact.act? =
      (act :: (spanActions rest).1) ++ (spanActions rest).2.filterMap Ofpact.act? := by
  have hactions (acts : List A) : (acts.map Ofpact.action).filterMap Ofpact.act? = acts := by
    rw [List.filterMap_map]
    exact List.filterMap_some
  have hrest := congrArg (List.filterMap Ofpact.act?) (spanActions_eq rest)
  rw [List.filterMap_append, hactions] at hrest
  show act :: rest.filterMap Ofpact.act? = _
  rw [← hrest]
  rfl

theorem Writable.span {a : Ofpact A} {rest : List (Ofpact A)} (h : Writable c (a :: rest)) :
    Writable c (spanActions rest).2 := by
  have htail := h.tail
  rw [← spanActions_eq rest] at htail
  exact htail.of_append

/-- Behind the actions come ofpacts of later types only. -/
theorem Writable.lt_span {act : A} {rest : List (Ofpact A)}
    (h : Writable c (.action act :: rest)) :
    ∀ b ∈ (spanActions rest).2,
      InstructionType.applyActions.value < b.instructionType.value := by
  have hsplit := spanActions_eq rest
  have hnotaction := spanActions_head rest
  have hspan := h.span
  have hge : ∀ b ∈ (spanActions rest).2, 1 ≤ b.instructionType.value := by
    intro b hb
    have hb' : b ∈ rest := by
      rw [← hsplit]
      exact List.mem_append_right _ hb
    have hab := (List.pairwise_cons.mp h.verified).1 b hb'
    exact hab
  show ∀ b ∈ (spanActions rest).2, 1 < b.instructionType.value
  cases hr : (spanActions rest).2 with
  | nil => nofun
  | cons b tail =>
    rw [hr] at hspan hge
    have hb : b.instructionType ≠ .applyActions := by
      cases b with
      | action act' => exact absurd hr (hnotaction act' tail)
      | _ => nofun
    have hbval : 1 < b.instructionType.value := by
      have hle := hge b List.mem_cons_self
      cases hbt : b.instructionType with
      | applyActions => exact absurd hbt hb
      | meter =>
        rw [hbt] at hle
        exact absurd hle (by decide)
      | _ => decide
    intro x hx
    rcases List.mem_cons.mp hx with rfl | hmem
    · exact hbval
    · exact Nat.lt_trans hbval (hspan.lt hb x hmem)

theorem decode_applyActions (hc : c.RoundTrips .ofp13) (pad : BitVec 32) (acts : List A)
    (hfits : Fits c acts) :
    (Instruction.applyActions pad (encoded hc acts hfits)).decode c .ofp13 =
      .ok (acts.map .action) := by
  have hfrom := hc.from_to acts
  rw [Instruction.decode, encoded, hfrom]
  show Except.ok ((acts.map Decoded.action).map Decoded.ofpact) = _
  rw [List.map_map]
  rfl

theorem putInstructionActions_eq (type : InstructionType) {actions : List Byte}
    (h : 0 < actions.length) :
    putInstructionActions type actions =
      header type (4 + (leBytes 4 0 ++ actions).length) ++ (leBytes 4 0 ++ actions) := by
  rw [putInstructionActions, if_pos h, List.append_assoc, List.length_append, leBytes_length,
    ← Nat.add_assoc]
  rfl

/-- One more instruction in front, for an ofpact that is no action. -/
theorem Puts.single {bytes : List Byte} {a : Ofpact A} {rest : List (Ofpact A)}
    {js : List Instruction} (h : Puts c bytes rest js) (hw : Writable c (a :: rest))
    {j : Instruction} (hdecode : j.decode c .ofp13 = .ok [a]) (hkept : a.writesNothing = false)
    (htype : a.instructionType = j.type) (hne : a.instructionType ≠ .applyActions) :
    Puts c (j.wire ++ bytes) (a :: rest) (j :: js) := by
  have hlt := hw.lt hne
  rw [htype] at hlt
  refine h.cons hdecode ?_ ⟨a, List.mem_singleton_self a, htype⟩ hlt
  intro b hb
  rw [List.mem_singleton.mp hb, hkept]

theorem Puts.writeActions (hc : c.RoundTrips .ofp13) {bytes : List Byte} {acts : List A}
    {rest : List (Ofpact A)} {js : List Instruction} (h : Puts c bytes rest js)
    (hw : Writable c (.writeActions acts :: rest)) :
    ∃ ks, Puts c (putInstructionActions .writeActions (acts.flatMap (c.toOpenflow .ofp13)) ++ bytes)
      (.writeActions acts :: rest) ks := by
  obtain ⟨hfits, hset⟩ := hw.sets acts List.mem_cons_self
  by_cases hne : acts = []
  · subst hne
    exact ⟨js, h.skip⟩
  · have hkept : (Ofpact.writeActions acts).writesNothing = false := by
      cases acts with
      | nil => exact absurd rfl hne
      | cons act acts => rfl
    have hdecode : (Instruction.writeActions 0 (encoded hc acts hfits)).decode c .ofp13 =
        .ok [.writeActions acts] := by
      rw [Instruction.decode, encoded, hset]
      rfl
    rw [putInstructionActions_eq .writeActions (flatMap_ne_nil hc hne)]
    exact ⟨_, h.single hw hdecode hkept rfl InstructionType.noConfusion⟩

/-- A run of actions is one instruction. -/
theorem Puts.applyActions (hc : c.RoundTrips .ofp13) {bytes : List Byte} {act : A}
    {rest : List (Ofpact A)} {js : List Instruction} (h : Puts c bytes (spanActions rest).2 js)
    (hw : Writable c (.action act :: rest)) :
    ∃ ks, Puts c (putInstructionActions .applyActions
      ((act :: (spanActions rest).1).flatMap (c.toOpenflow .ofp13)) ++ bytes)
      (.action act :: rest) ks := by
  have hfits : Fits c (act :: (spanActions rest).1) := by
    have hall := hw.fits
    rw [Fits, filterMap_span, List.flatMap_append, List.length_append] at hall
    rw [Fits]
    omega
  have hputs := h.cons (decode_applyActions hc 0 (act :: (spanActions rest).1) hfits)
    (by simp [Ofpact.writesNothing]) ⟨.action act, List.mem_cons_self, rfl⟩ hw.lt_span
  rw [List.map_cons, List.cons_append, spanActions_eq] at hputs
  rw [putInstructionActions_eq .applyActions (flatMap_ne_nil hc (List.cons_ne_nil _ _))]
  exact ⟨_, hputs⟩

/-- What a put writes for ofpacts in order is a set of instructions in that order. -/
theorem puts_putInstructions (hc : c.RoundTrips .ofp13) (n : Nat) (ofpacts : List (Ofpact A))
    (hn : ofpacts.length ≤ n) (h : Writable c ofpacts) :
    ∃ js, Puts c (putInstructions c .ofp13 n ofpacts) ofpacts js := by
  -- One instruction per round; only a run of actions takes more than one ofpact.
  induction n generalizing ofpacts with
  | zero =>
    have hnil : ofpacts = [] := List.eq_nil_of_length_eq_zero (by omega)
    subst hnil
    exact ⟨[], Puts.nil⟩
  | succ n ih =>
    cases ofpacts with
    | nil => exact ⟨[], Puts.nil⟩
    | cons a rest =>
      have hlen : rest.length ≤ n := by
        rw [List.length_cons] at hn
        omega
      obtain ⟨js, hjs⟩ := ih rest hlen h.tail
      cases a with
      | gotoFp bitmap =>
        exact ⟨_, hjs.single h (j := .gotoFp bitmap 0) rfl rfl rfl InstructionType.noConfusion⟩
      | meter meterId =>
        exact ⟨_, hjs.single h (j := .meter meterId) rfl rfl rfl InstructionType.noConfusion⟩
      | clearActions =>
        exact ⟨_, hjs.single h (j := .clearActions 0) rfl rfl rfl InstructionType.noConfusion⟩
      | gotoTable tableId =>
        exact ⟨_, hjs.single h (j := .gotoTable tableId 0) rfl rfl rfl InstructionType.noConfusion⟩
      | writeMetadata metadata mask =>
        exact ⟨_, hjs.single h (j := .writeMetadata 0 metadata mask) rfl rfl rfl
          InstructionType.noConfusion⟩
      | writeActions acts => exact hjs.writeActions hc h
      | action act =>
        have hlength := congrArg List.length (spanActions_eq rest)
        rw [List.length_append] at hlength
        obtain ⟨ks, hks⟩ := ih (spanActions rest).2 (by omega) h.span
        exact hks.applyActions hc h

/-! ## The ofpacts can be written -/

theorem actionForSet_eq_ok {d : Decoded A} {act : A} (h : actionForSet c d = .ok act) :
    d = .action act ∧ c.isAllowedInActionsSet act = true := by
  cases d with
  | writeMetadata metadata mask => cases h
  | action b =>
    rw [actionForSet] at h
    by_cases hallowed : c.isAllowedInActionsSet b = true
    · rw [if_pos hallowed] at h
      obtain rfl := Except.ok.inj h
      exact ⟨rfl, hallowed⟩
    · rw [if_neg hallowed] at h
      cases h

theorem mapM_actionForSet {decoded : List (Decoded A)} {acts : List A} :
    decoded.mapM (actionForSet c) = .ok acts ↔
      decoded = acts.map .action ∧ ∀ act ∈ acts, c.isAllowedInActionsSet act = true := by
  constructor
  · intro h
    induction decoded generalizing acts with
    | nil =>
      obtain rfl := Except.ok.inj h
      exact ⟨rfl, nofun⟩
    | cons d decoded ih =>
      rw [List.mapM_cons] at h
      cases hd : actionForSet c d with
      | error e =>
        rw [hd] at h
        cases h
      | ok act =>
        cases hrest : decoded.mapM (actionForSet c) with
        | error e =>
          rw [hd, hrest] at h
          cases h
        | ok tail =>
          rw [hd, hrest] at h
          obtain rfl := Except.ok.inj h
          obtain ⟨rfl, hact⟩ := actionForSet_eq_ok hd
          obtain ⟨rfl, htail⟩ := ih hrest
          exact ⟨rfl, List.forall_mem_cons.mpr ⟨hact, htail⟩⟩
  · rintro ⟨rfl, hallowed⟩
    have hmap := mapM_eq_ok (f := fun act => actionForSet c (.action act)) (g := id)
      (fun act hact => if_pos (hallowed act hact))
    rw [List.mapM_map, List.map_id] at *
    exact hmap

theorem actionSet_eq_ok_iff {bytes : List Byte} {acts : List A} :
    fromOpenflow11ForActionSet c .ofp13 bytes = .ok acts ↔
      c.fromOpenflow .ofp13 bytes = .ok (acts.map .action) ∧
        (∀ act ∈ acts, c.isAllowedInActionsSet act = true) ∧
        8 + (acts.map c.size).sum < 2 ^ 16 := by
  have hrest (decoded : List (Decoded A)) (hfrom : c.fromOpenflow .ofp13 bytes = .ok decoded) :
      fromOpenflow11ForActionSet c .ofp13 bytes =
        (decoded.mapM (actionForSet c) >>= fun acts =>
          if 8 + (acts.map c.size).sum < 2 ^ 16 then .ok acts else .error .lenWraps) := by
    rw [fromOpenflow11ForActionSet, hfrom]
    rfl
  constructor
  · intro h
    cases hfrom : c.fromOpenflow .ofp13 bytes with
    | error e =>
      rw [fromOpenflow11ForActionSet, hfrom] at h
      cases h
    | ok decoded =>
      rw [hrest decoded hfrom] at h
      cases hmap : decoded.mapM (actionForSet c) with
      | error e =>
        rw [hmap] at h
        cases h
      | ok acts' =>
        replace h : (if 8 + (acts'.map c.size).sum < 2 ^ 16 then Except.ok acts'
            else Except.error Failure.lenWraps) = .ok acts := by
          rwa [hmap] at h
        by_cases hsize : 8 + (acts'.map c.size).sum < 2 ^ 16
        · rw [if_pos hsize] at h
          obtain rfl := Except.ok.inj h
          obtain ⟨rfl, hallowed⟩ := mapM_actionForSet.mp hmap
          exact ⟨rfl, hallowed, hsize⟩
        · rw [if_neg hsize] at h
          cases h
  · rintro ⟨hfrom, hallowed, hsize⟩
    rw [hrest _ hfrom, mapM_actionForSet.mpr ⟨rfl, hallowed⟩]
    exact if_pos hsize

theorem filterMap_ofpacts {i : Instruction} (h : i.Decodable c .ofp13)
    (htype : i.type ≠ .applyActions) : (i.ofpacts c .ofp13).filterMap Ofpact.act? = [] := by
  rw [List.filterMap_eq_nil_iff]
  intro a ha
  have hatype : a.instructionType ≠ .applyActions := by
    rcases instructionType_of_mem h ha with hsame | ⟨happly, -⟩
    · rw [hsame]
      exact htype
    · exact absurd happly htype
  cases a with
  | action act => exact absurd rfl hatype
  | _ => rfl

/-- The actions of the instruction still fit when they are encoded again. -/
def Refits (c : ActionCodec A) (i : Instruction) : Prop :=
  Fits c ((i.ofpacts c .ofp13).filterMap Ofpact.act?) ∧ ∀ a ∈ i.ofpacts c .ofp13, Fits c a.set

section

variable (hc : c.RoundTrips .ofp13) {is : List Instruction}
  (hdistinct : (is.map Instruction.type).Nodup) (hdec : ∀ i ∈ is, i.Decodable c .ofp13)

include hdec

/-- All actions stand in one instruction. -/
theorem fits_inPullOrder (hfits : ∀ i ∈ is, Refits c i) :
    Fits c (((inPullOrder is).flatMap (Instruction.ofpacts c .ofp13)).filterMap Ofpact.act?) := by
  have hother : ∀ t : InstructionType, t ≠ .applyActions →
      (is.find? (·.type = t)).toList.flatMap
        (fun i => (i.ofpacts c .ofp13).filterMap Ofpact.act?) = [] := by
    intro t ht
    cases hfind : is.find? (·.type = t) with
    | none => rfl
    | some i =>
      have htype := List.find?_some hfind
      simp only [decide_eq_true_eq] at htype
      have hnil := filterMap_ofpacts (hdec i (List.mem_of_find?_eq_some hfind)) (htype ▸ ht)
      simp [hnil]
  have hactions : ((inPullOrder is).flatMap (Instruction.ofpacts c .ofp13)).filterMap
      Ofpact.act? = (is.find? (·.type = .applyActions)).toList.flatMap
        (fun i => (i.ofpacts c .ofp13).filterMap Ofpact.act?) := by
    rw [List.filterMap_flatMap, inPullOrder, List.flatMap_assoc]
    simp only [pullOrder, List.flatMap_cons, List.flatMap_nil]
    rw [hother .gotoFp (by decide), hother .meter (by decide), hother .clearActions (by decide),
      hother .writeActions (by decide), hother .writeMetadata (by decide),
      hother .gotoTable (by decide)]
    simp
  rw [hactions]
  cases hfind : is.find? (·.type = .applyActions) with
  | none =>
    show 8 + 0 < 2 ^ 16
    decide
  | some i =>
    rw [Option.toList_some, List.flatMap_singleton]
    exact (hfits i (List.mem_of_find?_eq_some hfind)).1

include hc hdistinct in
theorem writable_inPullOrder (hfits : ∀ i ∈ is, Refits c i) (hfp : GotoFpAlone c is)
    (hmd : MetadataLast c is) :
    Writable c ((inPullOrder is).flatMap (Instruction.ofpacts c .ofp13)) where
  verified := verified_inPullOrder hdistinct hdec hfp hmd
  fits := fits_inPullOrder hdec hfits
  sets := by
    intro acts hmem
    obtain ⟨i, hi, ha⟩ := List.mem_flatMap.mp hmem
    have hi' := (mem_inPullOrder hdistinct i).mp hi
    refine ⟨(hfits i hi').2 _ ha, ?_⟩
    cases i with
    | writeActions pad actions =>
      obtain ⟨acts', hfrom, hofpacts⟩ := ofpacts_writeActions (hdec _ hi')
      rw [hofpacts] at ha
      obtain rfl := Ofpact.writeActions.inj (List.mem_singleton.mp ha)
      obtain ⟨-, hset⟩ := actionSet_eq_ok_iff.mp hfrom
      exact actionSet_eq_ok_iff.mpr ⟨hc.from_to acts, hset⟩
    | applyActions pad actions =>
      rcases instructionType_of_mem (hdec _ hi') ha with himpossible | ⟨-, himpossible⟩
      · cases himpossible
      · cases himpossible
    | _ => cases List.mem_singleton.mp ha

omit hdec in
theorem pullIndex_of_value {s t : InstructionType} (h : s.value < t.value)
    (ht : t ≠ .gotoFp) : s.pullIndex < t.pullIndex := by
  cases s <;> cases t <;> first | exact absurd rfl ht | exact absurd h (by decide) | decide

include hdistinct in
/-- The order of the enumeration is that of the pull where `GOTO_FP` comes alone. -/
theorem Puts.pullSorted {js : List Instruction} {bytes : List Byte} (hfp : GotoFpAlone c is)
    (h : Puts c bytes ((inPullOrder is).flatMap (Instruction.ofpacts c .ofp13)) js) :
    PullSorted js := by
  have htype : ∀ j ∈ js, ∃ k ∈ is, ∃ a ∈ k.ofpacts c .ofp13, a.instructionType = j.type := by
    intro j hj
    obtain ⟨a, ha, hatype⟩ := h.types j hj
    obtain ⟨k, hk, hak⟩ := List.mem_flatMap.mp ha
    exact ⟨k, (mem_inPullOrder hdistinct k).mp hk, a, hak, hatype⟩
  refine List.Pairwise.imp_of_mem ?_ h.sorted
  intro i j hi hj hij
  by_cases hgoto : j.type = .gotoFp
  · obtain ⟨k, hk, a, hak, hatype⟩ := htype j hj
    have hkgoto : k.type = .gotoFp := by
      rcases instructionType_of_mem (hdec k hk) hak with hsame | ⟨-, hmeta⟩
      · rw [← hsame, hatype, hgoto]
      · rw [hatype, hgoto] at hmeta
        cases hmeta
    obtain ⟨k', hk', b, hbk, hbtype⟩ := htype i hi
    have hlate : 5 ≤ i.type.value := by
      rcases hfp ⟨k, hk, hkgoto⟩ k' hk' with hfp' | htable | hnone
      · rcases instructionType_of_mem (hdec k' hk') hbk with hsame | ⟨happly, -⟩
        · rw [← hbtype, hsame, hfp']
          decide
        · rw [hfp'] at happly
          cases happly
      · rcases instructionType_of_mem (hdec k' hk') hbk with hsame | ⟨happly, -⟩
        · rw [← hbtype, hsame, htable]
          decide
        · rw [htable] at happly
          cases happly
      · rw [hnone] at hbk
        cases hbk
    rw [hgoto] at hij
    exact absurd hij (Nat.not_lt.mpr hlate)
  · exact pullIndex_of_value hij hgoto

end

/-- Of a list of well-formed instructions of distinct types, in any order, a pull makes
exactly their ofpacts. Written and pulled again they are the same, less a `WRITE_ACTIONS`
without actions. -/
theorem pull_put_pull (hc : c.RoundTrips .ofp13) (is : List Instruction)
    (hdistinct : (is.map Instruction.type).Nodup) (hdec : ∀ i ∈ is, i.Decodable c .ofp13)
    (hfits : ∀ i ∈ is, Refits c i) (hfp : GotoFpAlone c is) (hmd : MetadataLast c is)
    (rest rest' : List Byte) :
    ∃ (order : List Instruction) (bytes : List Byte), order.Perm is ∧
      ofpactsPullOpenflowInstructions c .ofp13 (is.flatMap Instruction.wire ++ rest)
          (is.flatMap Instruction.wire).length =
        (.ok (order.flatMap (Instruction.ofpacts c .ofp13)), rest) ∧
      ofpactsPutOpenflowInstructions c .ofp13
        (order.flatMap (Instruction.ofpacts c .ofp13)) = some bytes ∧
      ofpactsPullOpenflowInstructions c .ofp13 (bytes ++ rest') bytes.length =
        (.ok ((order.flatMap (Instruction.ofpacts c .ofp13)).filter (!·.writesNothing)),
          rest') := by
  have hwritable := writable_inPullOrder hc hdistinct hdec hfits hfp hmd
  obtain ⟨js, hjs⟩ := puts_putInstructions hc _ _ (Nat.le_refl _) hwritable
  have hsorted := hjs.pullSorted hdistinct hdec hfp
  have hverified : Verified ((inPullOrder js).flatMap (Instruction.ofpacts c .ofp13)) := by
    rw [hsorted.inPullOrder_eq, hjs.kept]
    exact hwritable.verified.sublist List.filter_sublist
  have hagain := pull_verified hsorted.nodup hjs.decodable hverified rest'
  rw [hsorted.inPullOrder_eq, hjs.kept, ← hjs.wires] at hagain
  exact ⟨inPullOrder is, _, inPullOrder_perm hdistinct,
    pull_verified hdistinct hdec hwritable.verified rest, rfl, hagain⟩

/-! ## Output actions -/

/-- `OFPAT11_OUTPUT` with a `max_len` of zero. -/
def outputAction (port : BitVec 32) : List Byte :=
  beBytes 2 0 ++ beBytes 2 16 ++ beBytes 4 port.toNat ++ List.replicate 8 0

/-- Vendor action `NXAST_WRITE_METADATA`, up to the metadata. -/
def nxastWriteMetadata : List Byte :=
  beBytes 2 0xffff ++ beBytes 2 32 ++ beBytes 4 0x2320 ++ beBytes 2 22 ++ List.replicate 6 0

def decodeOutputs : Nat → List Byte → Except Failure (List (Decoded (BitVec 32)))
  | 0, bytes => if bytes = [] then .ok [] else .error (.ofpbac 0)
  | n + 1, bytes =>
    if bytes = [] then .ok []
    else if bytes.take 16 = outputAction (net32At bytes 4) then
      (.action (net32At bytes 4) :: ·) <$> decodeOutputs n (bytes.drop 16)
    else if bytes.take 16 = nxastWriteMetadata then
      (.writeMetadata (load64At bytes 16) (load64At bytes 24) :: ·) <$>
        decodeOutputs n (bytes.drop 32)
    else .error (.ofpbac 0)

/-- A codec of outputs, and of `write_metadata` actions as they arrive. -/
def outputCodec : ActionCodec (BitVec 32) where
  fromOpenflow := fun _ bytes => decodeOutputs bytes.length bytes
  toOpenflow := fun _ port => outputAction port
  isAllowedInActionsSet := fun _ => true
  size := fun _ => 8

@[simp] theorem length_outputAction (port : BitVec 32) : (outputAction port).length = 16 := by
  simp [outputAction]

theorem net32At_outputAction (port : BitVec 32) (rest : List Byte) :
    net32At (outputAction port ++ rest) 4 = port := by
  have hdrop : (outputAction port ++ rest).drop 4 =
      beBytes 4 port.toNat ++ (List.replicate 8 0 ++ rest) := by
    rw [outputAction, List.append_assoc, List.append_assoc]
    exact List.drop_left' rfl
  rw [net32At, hdrop, List.take_left' (beBytes_length 4 _)]
  exact bswap_bswap 4 port

theorem decodeOutputs_flatMap (ports : List (BitVec 32)) (n : Nat) (hn : ports.length ≤ n) :
    decodeOutputs n (ports.flatMap outputAction) = .ok (ports.map .action) := by
  induction ports generalizing n with
  | nil => cases n <;> rfl
  | cons port ports ih =>
    obtain ⟨n, rfl⟩ : ∃ m, n = m + 1 := ⟨n - 1, by simp at hn; omega⟩
    have hne : outputAction port ++ ports.flatMap outputAction ≠ [] := nofun
    have htake : (outputAction port ++ ports.flatMap outputAction).take 16 = outputAction port :=
      List.take_left' (length_outputAction port)
    have hdrop : (outputAction port ++ ports.flatMap outputAction).drop 16 =
        ports.flatMap outputAction := List.drop_left' (length_outputAction port)
    rw [List.flatMap_cons, decodeOutputs, if_neg hne, net32At_outputAction, if_pos htake, hdrop,
      ih n (by simp at hn; omega)]
    rfl

theorem length_flatMap_outputAction (ports : List (BitVec 32)) :
    (ports.flatMap outputAction).length = 16 * ports.length := by
  induction ports with
  | nil => rfl
  | cons port ports ih =>
    rw [List.flatMap_cons, List.length_append, length_outputAction, ih, List.length_cons]
    omega

theorem outputCodec_roundTrips (version : OfpVersion) : outputCodec.RoundTrips version where
  from_to := by
    intro ports
    have hlen := length_flatMap_outputAction ports
    exact decodeOutputs_flatMap ports (ports.flatMap outputAction).length (by omega)
  aligned := fun port => ⟨2, length_outputAction port⟩

/-- One output, to port 2. -/
def outputTwo : ActionBytes := ⟨outputAction 2, ⟨2, rfl⟩, by decide⟩

/-- An instruction set with `GOTO_TABLE` in front of what is done before it, and one with
`GOTO_FP` behind it. -/
theorem pull_put_pull_output :
    let kept (is : List Instruction) := ∃ (order : List Instruction) (bytes : List Byte),
      order.Perm is ∧
      ofpactsPullOpenflowInstructions outputCodec .ofp13 (is.flatMap Instruction.wire ++ [])
          (is.flatMap Instruction.wire).length =
        (.ok (order.flatMap (Instruction.ofpacts outputCodec .ofp13)), []) ∧
      ofpactsPutOpenflowInstructions outputCodec .ofp13
        (order.flatMap (Instruction.ofpacts outputCodec .ofp13)) = some bytes ∧
      ofpactsPullOpenflowInstructions outputCodec .ofp13 (bytes ++ []) bytes.length =
        (.ok ((order.flatMap (Instruction.ofpacts outputCodec .ofp13)).filter
          (!·.writesNothing)), [])
    kept [.gotoTable 3 0, .writeActions 0 outputTwo, .applyActions 0 outputTwo] ∧
      kept [.gotoTable 3 0, .gotoFp 1 0] := by
  refine ⟨pull_put_pull (outputCodec_roundTrips .ofp13) _ (by decide) ?_ ?_ ?_ ?_ [] [],
    pull_put_pull (outputCodec_roundTrips .ofp13) _ (by decide) ?_ ?_ ?_ ?_ [] []⟩
  · exact List.forall_mem_cons.mpr ⟨⟨[.gotoTable 3], rfl⟩, List.forall_mem_cons.mpr
      ⟨⟨[.writeActions [2]], rfl⟩, List.forall_mem_singleton.mpr ⟨[.action 2], rfl⟩⟩⟩
  · unfold Refits
    decide +kernel
  · unfold GotoFpAlone
    decide +kernel
  · unfold MetadataLast
    decide +kernel
  · exact List.forall_mem_cons.mpr ⟨⟨[.gotoTable 3], rfl⟩,
      List.forall_mem_singleton.mpr ⟨[.gotoFp 1], rfl⟩⟩
  · unfold Refits
    decide +kernel
  · unfold GotoFpAlone
    decide +kernel
  · unfold MetadataLast
    decide +kernel

/-! ## Decrements of the TTL -/

/-- `OFPAT11_DEC_NW_TTL`: eight bytes, of which an ofpact of 16 bytes is made. -/
def decNwTtl : List Byte := beBytes 2 24 ++ beBytes 2 8 ++ List.replicate 4 0

def ttlCodec : ActionCodec Unit where
  fromOpenflow := fun _ bytes =>
    let acts := List.replicate (bytes.length / 8) ()
    if bytes = acts.flatMap fun _ => decNwTtl then .ok (acts.map .action) else .error (.ofpbac 0)
  toOpenflow := fun _ _ => decNwTtl
  isAllowedInActionsSet := fun _ => true
  size := fun _ => 16

theorem length_flatMap_decNwTtl (acts : List Unit) :
    (acts.flatMap (ttlCodec.toOpenflow .ofp13)).length = 8 * acts.length := by
  induction acts with
  | nil => rfl
  | cons act acts ih =>
    rw [List.flatMap_cons, List.length_append, ih, List.length_cons]
    show 8 + _ = _
    omega

theorem ttlCodec_roundTrips : ttlCodec.RoundTrips .ofp13 where
  from_to := by
    intro acts
    have hlen : (acts.flatMap (ttlCodec.toOpenflow .ofp13)).length / 8 = acts.length := by
      rw [length_flatMap_decNwTtl]
      omega
    have hacts : List.replicate acts.length () = acts :=
      (List.eq_replicate_iff.mpr ⟨rfl, fun _ _ => rfl⟩).symm
    show (if _ then _ else _) = _
    rw [hlen, hacts]
    exact if_pos rfl
  aligned := fun _ => ⟨1, rfl⟩

theorem decode_decNwTtl {n : Nat} (hfits : Fits ttlCodec (List.replicate n ()))
    (hn : 2 ^ 16 ≤ 8 + n * 16) :
    (Instruction.writeActions 0 (encoded ttlCodec_roundTrips _ hfits)).decode ttlCodec .ofp13 =
      .error .lenWraps := by
  have hmap := mapM_actionForSet (c := ttlCodec).mpr
    ⟨rfl, fun act (_ : act ∈ List.replicate n ()) => rfl⟩
  have hsum : ((List.replicate n ()).map ttlCodec.size).sum = n * 16 := by
    rw [List.map_replicate, List.sum_replicate_nat]
    rfl
  rw [Instruction.decode, fromOpenflow11ForActionSet, encoded, ttlCodec_roundTrips.from_to]
  show (_ <$> (List.mapM _ _ >>= fun acts => _)) = _
  rw [hmap]
  show _ <$> (if 8 + ((List.replicate n ()).map ttlCodec.size).sum < 2 ^ 16 then _ else _) = _
  rw [hsum, if_neg (by omega)]
  rfl

theorem pull_writeActions_error {pad : BitVec 32} {actions : ActionBytes} {e : Failure}
    (h : (Instruction.writeActions pad actions).decode c .ofp13 = .error e) :
    ofpactsPullOpenflowInstructions c .ofp13 (Instruction.writeActions pad actions).wire
      (Instruction.writeActions pad actions).wire.length = (.error e, []) := by
  have hpull := @pull_eq_pullInsts A c .ofp13 [.writeActions pad actions]
    (List.nodup_singleton _) []
  have hbranch : pullBranch c .ofp13 (instsOf [.writeActions pad actions] fun _ => none)
      .writeActions = .error e :=
    (pullInstruction_wire c .ofp13 (.writeActions pad actions)).trans h
  rw [List.flatMap_singleton, List.append_nil, pullInsts, pullOrder] at hpull
  simp only [List.mapM_cons, hbranch] at hpull
  exact hpull

/-- 4096 of them fit an instruction. -/
def decNwTtls : ActionBytes :=
  encoded ttlCodec_roundTrips (List.replicate 4096 ()) (by
    rw [Fits, length_flatMap_decNwTtl, List.length_replicate]
    decide)

/-- A `WRITE_ACTIONS` without actions is lost on the way, one with 4096 decrements of the TTL
does not fit its ofpact, and neither a `write_metadata` action before an output nor an output
beside `GOTO_FP` is accepted. -/
theorem instructions_lost_or_refused :
    outputCodec.RoundTrips .ofp13 ∧
    ofpactsPullOpenflowInstructions outputCodec .ofp13
      (Instruction.writeActions 0 ⟨[], ⟨0, rfl⟩, by decide⟩).wire 8 =
        (.ok [.writeActions []], []) ∧
    ofpactsPutOpenflowInstructions outputCodec .ofp13 [.writeActions []] = some [] ∧
    ofpactsPullOpenflowInstructions outputCodec .ofp13 [] 0 = (.ok [], []) ∧
    ofpactsPullOpenflowInstructions outputCodec .ofp13
      (Instruction.applyActions 0 ⟨nxastWriteMetadata ++ List.replicate 16 0 ++ outputAction 2,
        ⟨6, rfl⟩, by decide⟩).wire 56 = (.error .ofpbacUnsupportedOrder, []) ∧
    ofpactsPullOpenflowInstructions outputCodec .ofp13
      ((Instruction.applyActions 0 outputTwo).wire ++ (Instruction.gotoFp 1 0).wire) 32 =
        (.error .ofpbacUnsupportedOrder, []) ∧
    ttlCodec.RoundTrips .ofp13 ∧
    ofpactsPullOpenflowInstructions ttlCodec .ofp13
      (Instruction.writeActions 0 decNwTtls).wire
      (Instruction.writeActions 0 decNwTtls).wire.length = (.error .lenWraps, []) := by
  refine ⟨outputCodec_roundTrips .ofp13, ?_, ?_, ?_, ?_, ?_, ttlCodec_roundTrips,
    pull_writeActions_error (decode_decNwTtl _ (by decide))⟩ <;> decide +kernel

end Sdpa.Switch.Instructions
