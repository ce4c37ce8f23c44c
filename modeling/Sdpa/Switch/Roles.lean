import Sdpa.Lib.Histories
import Sdpa.Switch.Hash
import Sdpa.Switch.HandlePkt

/-!
# Messages of slave controllers

`handle_openflow__` of `ofproto/ofproto.c` gives every message to `sfa_handle_pkt`
first. The handlers behind it that change the switch refuse a slave controller
themselves; `sfa_handle_pkt` and the handlers it calls do not look at the connection.
-/
namespace Sdpa.Switch

open Sdpa.Lib.Endian
open Sdpa.Lib.Histories

variable {hash : Key → BitVec 32} {σ : Type}

/-- `enum ofconn_type`. -/
inductive OfconnType
  | primary | service
  deriving DecidableEq

/-- `enum ofp12_controller_role`, as far as it can be assigned. -/
inductive ControllerRole
  | equal | master | slave
  deriving DecidableEq

structure Ofconn where
  type : OfconnType
  role : ControllerRole
  deriving DecidableEq

/-- The connection is one that may not change the switch. -/
def rejectSlaveController (ofconn : Ofconn) : Bool :=
  ofconn.type = .primary ∧ ofconn.role = .slave

structure OpenFlowMessage where
  bytes : List Byte
  header : 8 ≤ bytes.length

/-- The switch apart from the apps, and the apps. -/
abbrev SwitchState (hash : Key → BitVec 32) (σ : Type) := σ × GApps hash

variable
  (handlers : Ofconn → List Byte → SwitchState hash σ → Except Fault (SwitchState hash σ))

/-- `handle_openflow__`. The handlers of the OpenFlow types are a parameter: what they do
for a connection that `reject_slave_controller` does not stop. For one that it stops,
they change at most what belongs to the connection. -/
def handleOpenflow (s : SwitchState hash σ) (input : Ofconn × OpenFlowMessage) :
    Except Fault (SwitchState hash σ) := do
  let (handled, g) ← sfaHandlePkt input.2.bytes s.2
  if handled = 0 then return (s.1, g)
  else if rejectSlaveController input.1 then return (s.1, g)
  else handlers input.1 input.2.bytes (s.1, g)

def notSlave (input : Ofconn × OpenFlowMessage) : Bool := input.1.role ≠ .slave

def OpenFlowMessage.isSfa (m : OpenFlowMessage) : Bool :=
  m.bytes[1]? = some ofptypeSfaTableCreate ∨ m.bytes[1]? = some ofptypeSfaStEntryMod ∨
    m.bytes[1]? = some ofptypeSfaAtEntryMod

/-- Slaves are controllers, and send no message of the types 90 to 92. -/
def SlavesSendNoSfa (run : List (Ofconn × OpenFlowMessage)) : Prop :=
  ∀ input ∈ run, input.1.role = .slave → input.1.type = .primary ∧ input.2.isSfa = false

instance (run : List (Ofconn × OpenFlowMessage)) : Decidable (SlavesSendNoSfa run) :=
  inferInstanceAs (Decidable (∀ input ∈ run, input.1.role = .slave → _))

theorem sfaHandlePkt_of_not_sfa {m : OpenFlowMessage} (h : m.isSfa = false) (g : GApps hash) :
    sfaHandlePkt m.bytes g = .ok (-1, g) := by
  have hlen := m.header
  have hget : m.bytes[1]? = some (m.bytes.get ⟨1, by omega⟩) := List.getElem?_eq_getElem (by omega)
  simp only [OpenFlowMessage.isSfa, hget, Option.some.injEq, decide_eq_false_iff_not, not_or] at h
  rw [sfaHandlePkt, hget]
  simp only [if_neg h.1, if_neg h.2.1, if_neg h.2.2]

theorem handleOpenflow_slave {input : Ofconn × OpenFlowMessage} (hrole : input.1.role = .slave)
    (htype : input.1.type = .primary) (hsfa : input.2.isSfa = false) (s : SwitchState hash σ) :
    handleOpenflow handlers s input = .ok s := by
  have hreject : rejectSlaveController input.1 = true := decide_eq_true ⟨htype, hrole⟩
  rw [handleOpenflow, sfaHandlePkt_of_not_sfa hsfa]
  simp only [bind, Except.bind, hreject, if_true]
  rfl

/-- As long as no slave sends a message for the apps, runs that differ only in the
messages of slaves leave the switch alike. -/
theorem slaves_do_not_matter (s : SwitchState hash σ) {run run' : List (Ofconn × OpenFlowMessage)}
    (h : SlavesSendNoSfa run) (h' : SlavesSendNoSfa run')
    (hsame : run.filter notSlave = run'.filter notSlave) :
    run.foldlM (handleOpenflow handlers) s = run'.foldlM (handleOpenflow handlers) s := by
  have hidle : ∀ r : List (Ofconn × OpenFlowMessage), SlavesSendNoSfa r → ∀ input ∈ r,
      notSlave input = false → ∀ s, handleOpenflow handlers s input = .ok s := by
    intro r hr input hinput hslave
    have hrole : input.1.role = .slave := by simpa [notSlave] using hslave
    obtain ⟨htype, hsfa⟩ := hr input hinput hrole
    exact handleOpenflow_slave handlers hrole htype hsfa
  rw [foldlM_filter (hidle run h), foldlM_filter (hidle run' h'), hsame]

/-- A create message for app 1 with empty tables. -/
def createEmpty : OpenFlowMessage where
  bytes := [4, 90, 0, 40, 0, 0, 0, 0] ++ ([0, 0, 0, 1] ++ List.replicate 12 0) ++
    List.replicate 4 0 ++ List.replicate 12 0
  header := by decide

def echoRequest : OpenFlowMessage where
  bytes := [4, 2, 0, 8, 0, 0, 0, 0]
  header := by decide

/-- Handlers that do nothing. -/
def idleHandlers (_ : Ofconn) (_ : List Byte) (s : SwitchState hash Unit) :
    Except Fault (SwitchState hash Unit) := .ok s

/-- A master creates an app, with and without an echo request of a slave before. -/
theorem slaves_do_not_matter_echo :
    [(⟨.primary, .slave⟩, echoRequest), (⟨.primary, .master⟩, createEmpty)].foldlM
        (handleOpenflow idleHandlers) ((), (GApps.start : GApps hashString)) =
      [(⟨.primary, .master⟩, createEmpty)].foldlM
        (handleOpenflow idleHandlers) ((), (GApps.start : GApps hashString)) :=
  slaves_do_not_matter idleHandlers _ (by decide) (by decide) rfl

/-- A slave creates an app. -/
theorem slave_creates_app :
    ∃ g : GApps hashString,
      [(⟨.primary, .slave⟩, createEmpty)].foldlM (handleOpenflow idleHandlers)
        ((), (GApps.start : GApps hashString)) = .ok ((), g) ∧ (g.find 1).isSome = true ∧
      [].foldlM (handleOpenflow idleHandlers) ((), (GApps.start : GApps hashString)) =
        .ok ((), GApps.start) ∧ ((GApps.start : GApps hashString).find 1).isSome = false ∧
      [((⟨.primary, .slave⟩ : Ofconn), createEmpty)].filter notSlave = [].filter notSlave :=
  ⟨_, rfl, rfl, rfl, rfl, rfl⟩

end Sdpa.Switch
