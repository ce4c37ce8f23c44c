import Sdpa.Protocol.AtLatest
import Sdpa.Switch.Megaflow

/-!
# Rewriting addresses

An address goes from a dotted string to a Java `int`, from there to the bytes of an
action, to a host integer in the action table, and into a field of the flow, which
is in network byte order. The last step takes the host integer as it is, and does
not ask whether the packet is one with an IPv4 header.
-/
namespace Sdpa.Protocol

open Sdpa.Lib.Endian
open Sdpa.Controller
open Sdpa.Switch

variable {hash : Key → BitVec 32}

/-! ## What an action is to do to a packet -/

inductive Side
  | src
  | dst
  deriving DecidableEq

def Side.actType : Side → ActType
  | .src => .setsrcfield
  | .dst => .setdstfield

def Side.field : Side → FlowField
  | .src => .nwSrc
  | .dst => .nwDst

/-- The address in the packet, byte by byte. The field of the flow holds these bytes. -/
def Side.address (fl : Flow) : Side → List Byte
  | .src => leBytes 4 (fl .nwSrc).toNat
  | .dst => leBytes 4 (fl .nwDst).toNat

/-- The packet has the field. The two addresses are those of an IPv4 header or the protocol
addresses of ARP and RARP, as the prerequisites of `lib/meta-flow.c` have it. -/
def HasField (fl : Flow) (f : FlowField) : Prop :=
  f = .nwSrc ∨ f = .nwDst →
    fl .dlType = ethTypeIp ∨ fl .dlType = ethTypeArp ∨ fl .dlType = ethTypeRarp

/-- An IPv4 packet gets the address and keeps the rest, any other packet keeps what it has. -/
def Rewritten (side : Side) (a : Dotted) (fl fl' : Flow) : Prop :=
  if fl .dlType = ethTypeIp then
    side.address fl' = a.octets ∧ ∀ f, f ≠ side.field → fl' f = fl f
  else ∀ f, HasField fl f → fl' f = fl f

/-- The address of an IPv4 packet is one that reads the same backwards. An ARP or RARP packet has
it already, backwards. -/
def Fits (side : Side) (a : Dotted) (fl : Flow) : Prop :=
  (fl .dlType = ethTypeIp → a.octets.reverse = a.octets) ∧
    (fl .dlType = ethTypeArp ∨ fl .dlType = ethTypeRarp → side.address fl = a.octets.reverse)

/-- The packet comes to the entry of the action table. -/
def Reaches (g : GApps hash) (p : FpPacket) (e : AtMatchEntry) : Prop :=
  ∃ found key, p.lookup g = .ok (.ok found) ∧
    parseMatch p.flow found.pat.bitmap = .ok (some key) ∧
    atEntry found.pat.atEntrys key
      (nextState p.flow p.tcpFlags found.status found.stt false) = some e

/-- Whatever reaches the entry is rewritten exactly if it fits. -/
def EntryRewrites (hash : Key → BitVec 32) (side : Side) (a : Dotted) (e : AtMatchEntry) : Prop :=
  ∀ (g : GApps hash) (p : FpPacket), Reaches g p e →
    ∃ r, p.run g = .ok r ∧ (Rewritten side a p.flow r.flow ↔ Fits side a p.flow)

/-! ## Bytes -/

/-- One round of `toIPv4Address`, over octets that are further up. -/
theorem or_octet {r : BitVec 32} {k n : Nat} (hk : k + 8 ≤ 32) (hr : r.toNat = 2 ^ (k + 8) * n)
    (oct : Byte) : (r ||| oct.setWidth 32 <<< k).toNat = 2 ^ k * (256 * n + oct.toNat) := by
  have hoct := oct.isLt
  have hlow : oct.toNat * 2 ^ k < 2 ^ (k + 8) := by
    rw [pow_add, Nat.mul_comm]
    exact Nat.mul_lt_mul_of_pos_left hoct (Nat.two_pow_pos k)
  have hle : 2 ^ (k + 8) ≤ 2 ^ 32 := Nat.pow_le_pow_right (by decide) hk
  rw [BitVec.toNat_or, hr, BitVec.toNat_shiftLeft, BitVec.toNat_setWidth_of_le (by decide),
    Nat.shiftLeft_eq, Nat.mod_eq_of_lt (by omega), ← Nat.two_pow_add_eq_or_of_lt hlow]
  ring

theorem toIPv4Address_toNat (a : Dotted) : (toIPv4Address a).toNat = leNat a.octets.reverse := by
  have h₁ := or_octet (r := 0) (k := 24) (n := 0) (by decide) rfl a.o₁
  have h₂ := or_octet (k := 16) (by decide) h₁ a.o₂
  have h₃ := or_octet (k := 8) (by decide) h₂ a.o₃
  have h₄ := or_octet (k := 0) (by decide) h₃ a.o₄
  refine h₄.trans ?_
  simp only [Dotted.octets, List.reverse_cons, List.reverse_nil, List.nil_append, List.cons_append,
    leNat]
  ring

/-- The host integer lies in memory with the last octet first. -/
theorem leBytes_toIPv4Address (a : Dotted) :
    leBytes 4 (toIPv4Address a).toNat = a.octets.reverse := by
  rw [toIPv4Address_toNat]
  exact leBytes_leNat a.octets.reverse

theorem leBytes_injective {n : Nat} {v w : BitVec (8 * n)}
    (h : leBytes n v.toNat = leBytes n w.toNat) : v = w := by
  rw [← leWord_leBytes n v, h, leWord_leBytes]

/-! ## The action -/

/-- `xlate_setsrcfield_action` and `xlate_setdstfield_action`. -/
def Side.put (fl : Flow) (ip : BitVec 32) : Side → Flow
  | .src => fl.set .nwSrc ip
  | .dst => fl.set .nwDst ip

theorem Side.address_put (side : Side) (fl : Flow) (ip : BitVec 32) :
    side.address (side.put fl ip) = leBytes 4 ip.toNat := by
  cases side with
  | src => rw [Side.address, Side.put, Flow.set_self]
  | dst => rw [Side.address, Side.put, Flow.set_self]

theorem Side.put_of_ne (side : Side) (fl : Flow) (ip : BitVec 32) {f : FlowField}
    (hf : f ≠ side.field) : side.put fl ip f = fl f := by
  cases side with
  | src => exact Flow.set_of_ne fl ip hf
  | dst => exact Flow.set_of_ne fl ip hf

theorem Side.put_field_iff (side : Side) (fl : Flow) (ip : BitVec 32) :
    side.put fl ip side.field = fl side.field ↔ side.address fl = leBytes 4 ip.toNat := by
  cases side with
  | src =>
    show fl.set .nwSrc ip .nwSrc = fl .nwSrc ↔ leBytes 4 (fl .nwSrc).toNat = leBytes 4 ip.toNat
    rw [Flow.set_self]
    exact ⟨fun h => by rw [h], fun h => (leBytes_injective h).symm⟩
  | dst =>
    show fl.set .nwDst ip .nwDst = fl .nwDst ↔ leBytes 4 (fl .nwDst).toNat = leBytes 4 ip.toNat
    rw [Flow.set_self]
    exact ⟨fun h => by rw [h], fun h => (leBytes_injective h).symm⟩

theorem executeFpActions_ofAddress (side : Side) (a : Dotted) (fl : Flow) :
    executeFpActions fl (sfaActionOf (.ofAddress side.actType a)) =
      (side.put fl (toIPv4Address a), false) := by
  cases side with
  | src => rfl
  | dst => rfl

theorem rewritten_put_iff (side : Side) (a : Dotted) (fl : Flow) :
    Rewritten side a fl (side.put fl (toIPv4Address a)) ↔ Fits side a fl := by
  have harp : ethTypeIp ≠ ethTypeArp := by decide
  have hrarp : ethTypeIp ≠ ethTypeRarp := by decide
  rw [Rewritten, Fits]
  by_cases hip : fl .dlType = ethTypeIp
  · rw [if_pos hip, Side.address_put, leBytes_toIPv4Address]
    constructor
    · rintro ⟨haddress, -⟩
      refine ⟨fun _ => haddress, fun hother => ?_⟩
      rw [hip] at hother
      exact absurd hother (not_or_intro harp hrarp)
    · rintro ⟨hsame, -⟩
      exact ⟨hsame hip, fun f hf => side.put_of_ne fl _ hf⟩
  · rw [if_neg hip, ← leBytes_toIPv4Address, ← Side.put_field_iff]
    have hfield : side.field = .nwSrc ∨ side.field = .nwDst := by
      cases side with
      | src => exact .inl rfl
      | dst => exact .inr rfl
    constructor
    · intro hkeeps
      exact ⟨fun h => absurd h hip, fun harp => hkeeps side.field fun _ => .inr harp⟩
    · rintro ⟨-, hkeeps⟩ f hf
      by_cases hside : f = side.field
      · subst hside
        exact hkeeps ((hf hfield).resolve_left hip)
      · exact side.put_of_ne fl _ hside

theorem run_of_reaches {g : GApps hash} {p : FpPacket} {e : AtMatchEntry} (h : Reaches g p e) :
    ∃ r, p.run g = .ok r ∧ r.flow = (executeFpActions p.flow e.act).1 := by
  obtain ⟨found, key, hlookup, hparse, hentry⟩ := h
  have hact : atLookup found.pat.atEntrys key
      (nextState p.flow p.tcpFlags found.status found.stt false) = some e.act := by
    rw [atLookup_eq_atEntry, hentry]
    rfl
  have hfp : fpLookup g p.bitmap p.flow = .ok (.ok found) := hlookup
  have hdecide : fpDecide p.flow p.tcpFlags found =
      .ok ⟨nextState p.flow p.tcpFlags found.status found.stt false,
        (executeFpActions p.flow e.act).1, .ok (executeFpActions p.flow e.act).2⟩ := by
    simp only [fpDecide, hparse, bind, Except.bind, hact]
    rfl
  have hrun : p.run g = .ok ⟨updateState g p.aid found.key
      (nextState p.flow p.tcpFlags found.status found.stt false),
        (executeFpActions p.flow e.act).1, .ok (executeFpActions p.flow e.act).2⟩ := by
    rw [FpPacket.run, xlateFp, hfp]
    simp only [bind, Except.bind, hdecide]
    rfl
  exact ⟨_, hrun, rfl⟩

theorem entryRewrites (side : Side) (a : Dotted) {d : ATDATA}
    (hact : d.act = .ofAddress side.actType a) : EntryRewrites hash side a (atEntryOf d) := by
  intro g p hreaches
  obtain ⟨r, hrun, hflow⟩ := run_of_reaches hreaches
  refine ⟨r, hrun, ?_⟩
  have hput : r.flow = side.put p.flow (toIPv4Address a) := by
    rw [hflow, atEntryOf, hact, executeFpActions_ofAddress]
  rw [hput]
  exact rewritten_put_iff side a p.flow

/-! ## From the message to the packet -/

/-- Wherever a create message or a modification lists a rewriting action, the switch enters it,
and a packet that comes to the entry is rewritten as it should be exactly if it fits. -/
theorem rewrites_iff (side : Side) (a : Dotted) {d : ATDATA}
    (hact : d.act = .ofAddress side.actType a) (hn : 0 ∉ d.buffer) {msg rest : List Byte}
    {off : Nat} (hmsg : msg.length < 65536) (t : Entries hash AtMatchEntry.data) :
    (d.buffer ≠ [] → Remaining msg off (d.writeTo ++ rest) → ∀ n, ∃ off',
      initAtEntrys msg (n + 1) off t = initAtEntrys msg n off' (t.insert (atEntryOf d)) ∧
        Remaining msg off' rest) ∧
    (Remaining msg off (ModMessage.writeItem ATDATA.writeTo (.add, d) ++ rest) → ∃ off',
      atModItem msg off t = .ok (.ok, t.insert (atEntryOf d), off') ∧ Remaining msg off' rest) ∧
    EntryRewrites hash side a (atEntryOf d) := by
  refine ⟨fun hne h n => initAtEntrys_item hmsg hne hn h t n, fun h => ?_,
    entryRewrites side a hact⟩
  exact ⟨_, atModItem_add hmsg hn h t, h.skip⟩

/-- An action that sets the source address of packets from 10.0.0.1 that are in state 2. -/
def rewriteSource (a : Dotted) : ATDATA :=
  .new 2 (inetNtoa (htonl 0x0a000001)) (.ofAddress .setsrcfield a)

/-- An app that moves packets from 10.0.0.1 to state 2, with that action. -/
def rewriting (a : Dotted) : GApps hashString :=
  GApps.start.append
    { appid := 1
      pst := ⟨0x8000, Entries.init.insert ⟨inetNtoa (htonl 0x0a000001), 1⟩⟩
      pstt := [always 1 2]
      pat := ⟨0x8000, Entries.init.insert (atEntryOf (rewriteSource a))⟩ } rfl

theorem reaches_rewriting (a : Dotted) :
    Reaches (rewriting a) (packetFrom 0x0a000001) (atEntryOf (rewriteSource a)) := by
  have hparse : parseMatch (packetFrom 0x0a000001).flow 0x8000 =
      .ok (some (inetNtoa (htonl 0x0a000001))) := by decide
  refine ⟨⟨inetNtoa (htonl 0x0a000001), 1, [always 1 2],
    ⟨0x8000, Entries.init.insert (atEntryOf (rewriteSource a))⟩⟩, _, ?_, hparse, ?_⟩
  · have hfirst : (Entries.init.insert ⟨inetNtoa (htonl 0x0a000001), 1⟩ :
        Entries hashString StMatchEntry.data).first (inetNtoa (htonl 0x0a000001)) =
          some ⟨inetNtoa (htonl 0x0a000001), 1⟩ := by decide
    exact lookup_eq_ok.mpr ⟨_, _, rfl, hparse, hfirst, rfl⟩
  · have hnext : nextState (packetFrom 0x0a000001).flow (packetFrom 0x0a000001).tcpFlags 1
        [always 1 2] false = 2 := by decide
    have hexpands : ¬ expands (Entries.init : Entries hashString AtMatchEntry.data).map = true := by
      decide
    have hnewest : withNewest Entries.init (atEntryOf (rewriteSource a))
        (inetNtoa (htonl 0x0a000001)) = (atEntryOf (rewriteSource a) ::
          (Entries.init : Entries hashString AtMatchEntry.data).withHash
            (inetNtoa (htonl 0x0a000001))) := if_pos rfl
    rw [hnext, atEntry_insert, if_neg hexpands, hnewest]
    exact List.find?_cons_of_pos rfl

/-- An address that reads the same backwards, added by a modification. -/
theorem rewrites_iff_palindrome :
    (∃ off', atModItem (SFAAtMod.writeTo (.ofCalls {} 1 [(.add, rewriteSource ⟨10, 7, 7, 10⟩)])) 16
      (Entries.init : Entries hashString AtMatchEntry.data) =
        .ok (.ok, Entries.init.insert (atEntryOf (rewriteSource ⟨10, 7, 7, 10⟩)), off')) ∧
    ∃ r, (packetFrom 0x0a000001).run (rewriting ⟨10, 7, 7, 10⟩) = .ok r ∧
      Rewritten .src ⟨10, 7, 7, 10⟩ (packetFrom 0x0a000001).flow r.flow := by
  have hrest : Remaining (SFAAtMod.writeTo (.ofCalls {} 1 [(.add, rewriteSource ⟨10, 7, 7, 10⟩)]))
      16 (ModMessage.writeItem ATDATA.writeTo (.add, rewriteSource ⟨10, 7, 7, 10⟩) ++ []) :=
    ⟨List.take 16 (SFAAtMod.writeTo (.ofCalls {} 1 [(.add, rewriteSource ⟨10, 7, 7, 10⟩)])),
      by decide, by decide⟩
  have hlen : (SFAAtMod.writeTo
      (.ofCalls {} 1 [(.add, rewriteSource ⟨10, 7, 7, 10⟩)])).length < 65536 := by decide
  obtain ⟨-, hitem, hrewrites⟩ := rewrites_iff .src ⟨10, 7, 7, 10⟩
    (d := rewriteSource ⟨10, 7, 7, 10⟩) rfl (by decide) hlen
    (Entries.init : Entries hashString AtMatchEntry.data)
  obtain ⟨off', hadd, -⟩ := hitem hrest
  obtain ⟨r, hrun, hiff⟩ := hrewrites _ _ (reaches_rewriting ⟨10, 7, 7, 10⟩)
  exact ⟨⟨off', hadd⟩, r, hrun, hiff.mpr ⟨fun _ => rfl, fun hother => absurd hother (by decide)⟩⟩

/-- The source address 11.0.0.10 becomes 10.0.0.11. -/
theorem address_reversed :
    ∃ r, (packetFrom 0x0a000001).run (rewriting ⟨11, 0, 0, 10⟩) = .ok r ∧
      Side.src.address r.flow = [10, 0, 0, 11] ∧
      ¬ Rewritten .src ⟨11, 0, 0, 10⟩ (packetFrom 0x0a000001).flow r.flow := by
  obtain ⟨r, hrun, hflow⟩ := run_of_reaches (reaches_rewriting ⟨11, 0, 0, 10⟩)
  have haddress : Side.src.address r.flow = [10, 0, 0, 11] := by
    rw [hflow]
    decide
  have htype : (packetFrom 0x0a000001).flow .dlType = ethTypeIp := by decide
  refine ⟨r, hrun, haddress, fun hrewritten => ?_⟩
  rw [Rewritten, if_pos htype, haddress] at hrewritten
  exact absurd hrewritten.1 (by decide)

end Sdpa.Protocol
