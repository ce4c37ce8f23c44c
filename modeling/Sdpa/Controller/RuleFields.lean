import Mathlib.Data.List.TakeWhile
import Sdpa.Controller.StateFirewall

/-!
# The fields of a decision

`matchWithRule` returns the fields that a flow for the decision has to match. They
should be enough for every packet of the flow to get the same decision. A rule that
rejects a packet does not note the field that it rejects it on, though, so that
this field is among them only if a rule of the same action has got past it. A rule that
matches has noted all that it looks at, but for the protocol addresses of ARP.
-/
namespace Sdpa.Controller.Firewall

open Lib.Checks

/-- A packet at a switch. -/
structure Arrival where
  inPort : BitVec 32
  eth : Ethernet

namespace Arrival

def ip (p : Arrival) : Option Ip :=
  match p.eth.payload with
  | .ipv4 ip => some ip
  | _ => none

def arp (p : Arrival) : Option Arp :=
  match p.eth.payload with
  | .arp arp => some arp
  | _ => none

def tcpPorts (p : Arrival) : Option (BitVec 16 × BitVec 16) :=
  match p.ip.map Ip.payload with
  | some (.tcp sourcePort destinationPort) => some (sourcePort, destinationPort)
  | _ => none

def udpPorts (p : Arrival) : Option (BitVec 16 × BitVec 16) :=
  match p.ip.map Ip.payload with
  | some (.udp sourcePort destinationPort) => some (sourcePort, destinationPort)
  | _ => none

/-- The value of a field, where the packet has it. -/
def field (p : Arrival) : OFOXMFieldType → Option Nat
  | .inPort => some p.inPort.toNat
  | .ethDst => some p.eth.destinationMAC.toNat
  | .ethSrc => some p.eth.sourceMAC.toNat
  | .ethType => some p.eth.etherType.toNat
  | .ipProto => p.ip.map fun ip => ip.protocol.toNat
  | .ipv4Src => p.ip.map fun ip => ip.sourceAddress.toNat
  | .ipv4Dst => p.ip.map fun ip => ip.destinationAddress.toNat
  | .tcpSrc => p.tcpPorts.map fun ports => ports.1.toNat
  | .tcpDst => p.tcpPorts.map fun ports => ports.2.toNat
  | .udpSrc => p.udpPorts.map fun ports => ports.1.toNat
  | .udpDst => p.udpPorts.map fun ports => ports.2.toNat
  | .arpSha => p.arp.map fun arp => arp.senderHardwareAddress.toNat
  | .arpTha => p.arp.map fun arp => arp.targetHardwareAddress.toNat

theorem ip_eq_some {p : Arrival} {ip : Ip} : p.ip = some ip ↔ p.eth.payload = .ipv4 ip := by
  unfold Arrival.ip
  cases p.eth.payload <;> simp

theorem arp_eq_some {p : Arrival} {a : Arp} : p.arp = some a ↔ p.eth.payload = .arp a := by
  unfold Arrival.arp
  cases p.eth.payload <;> simp

/-- A field of the packet in the frame is one of the other packet too. -/
theorem exists_of_map {α : Type} {w : Nat} {x y : Option α} {g : α → BitVec w} {a : α}
    (hy : y = some a) (h : (x.map fun a => (g a).toNat) = y.map fun a => (g a).toNat) :
    ∃ b, x = some b ∧ g b = g a := by
  rw [hy, Option.map_some, Option.map_eq_some_iff] at h
  obtain ⟨b, hx, hg⟩ := h
  exact ⟨b, hx, BitVec.eq_of_toNat_eq hg⟩

end Arrival

namespace StateFirewall

/-- What the search comes to: an exception, or the action of the rule found, if one is. -/
abbrev Outcome := Option (Option FirewallAction)

/-- The decision for a packet. -/
def outcome (rules : List FirewallRule) (switchDpid : BitVec 64) (p : Arrival) : Outcome :=
  (matchWithRule rules switchDpid p.inPort p.eth).map fun x => x.rule.map FirewallRule.action

/-- Packets that agree with `p` on the fields returned for it get the decision that it gets. -/
def Covers (rules : List FirewallRule) (switchDpid : BitVec 64) (p : Arrival)
    (x : RuleWildcardsPair) : Prop :=
  ∀ q : Arrival, (∀ f ∈ x.nonWildcards, q.field f = p.field f) →
    outcome rules switchDpid q = some (x.rule.map FirewallRule.action)

/-! ## The search, rule by rule -/

section

variable {rules : List FirewallRule} {switchDpid : BitVec 64} {p : Arrival} {r : FirewallRule}

/-- Which rule is found does not depend on what has been noted. -/
theorem firstMatch_rule (n n' : NonWildcardsPair) :
    (firstMatch switchDpid p.inPort p.eth rules n).map Prod.fst =
      (firstMatch switchDpid p.inPort p.eth rules n').map Prod.fst := by
  induction rules generalizing n n' with
  | nil => rfl
  | cons r rules ih =>
    rw [firstMatch, firstMatch, FirewallRule.matchesFlow_eq, FirewallRule.matchesFlow_eq, run_eq,
      run_eq]
    rcases verdict (r.checks switchDpid p.inPort p.eth) with _ | _ | _
    · rfl
    · exact ih _ _
    · rfl

theorem outcome_of_rejected
    (h : verdict (r.checks switchDpid p.inPort p.eth) = some false) :
    outcome (r :: rules) switchDpid p = outcome rules switchDpid p := by
  have hsame := @firstMatch_rule rules switchDpid p
    ((notes (r.checks switchDpid p.inPort p.eth)).foldl .add {}) {}
  have hmap := congrArg (Option.map (Option.map FirewallRule.action)) hsame
  rw [Option.map_map, Option.map_map] at hmap
  rw [outcome, outcome, matchWithRule, matchWithRule, firstMatch, FirewallRule.matchesFlow_eq,
    run_eq, h, Option.map_map, Option.map_map]
  exact hmap

theorem outcome_of_matched (h : verdict (r.checks switchDpid p.inPort p.eth) = some true) :
    outcome (r :: rules) switchDpid p = some (some r.action) := by
  rw [outcome, matchWithRule, firstMatch, FirewallRule.matchesFlow_eq, run_eq, h]
  rfl

/-- Rules that reject the packet have no part in the decision. -/
theorem outcome_append {before : List FirewallRule}
    (h : ∀ r ∈ before, verdict (r.checks switchDpid p.inPort p.eth) = some false) :
    outcome (before ++ rules) switchDpid p = outcome rules switchDpid p := by
  induction before with
  | nil => rfl
  | cons r before ih =>
    obtain ⟨hr, hbefore⟩ := List.forall_mem_cons.mp h
    rw [List.cons_append, outcome_of_rejected hr, ih hbefore]

theorem firstMatch_some {n n' : NonWildcardsPair}
    (h : firstMatch switchDpid p.inPort p.eth rules n = some (some r, n')) :
    r ∈ rules ∧ verdict (r.checks switchDpid p.inPort p.eth) = some true ∧
      ∀ f, (r.action, f) ∈ notes (r.checks switchDpid p.inPort p.eth) → f ∈ n'.of r.action := by
  induction rules generalizing n with
  | nil => cases h
  | cons s rules ih =>
    rw [firstMatch, FirewallRule.matchesFlow_eq, run_eq] at h
    rcases hv : verdict (s.checks switchDpid p.inPort p.eth) with _ | _ | _ <;> rw [hv] at h
    · cases h
    · obtain ⟨hmem, hrest⟩ := ih h
      exact ⟨List.mem_cons_of_mem s hmem, hrest⟩
    · cases h
      exact ⟨List.mem_cons_self, hv, fun f hf => (NonWildcardsPair.mem_of_foldl _ _ _ _).mpr (.inl hf)⟩

/-- The rule found matches the packet, and the fields that it has noted are returned. -/
theorem matchWithRule_some {x : RuleWildcardsPair}
    (hx : matchWithRule rules switchDpid p.inPort p.eth = some x) (hr : x.rule = some r) :
    r ∈ rules ∧ verdict (r.checks switchDpid p.inPort p.eth) = some true ∧
      ∀ f, (r.action, f) ∈ notes (r.checks switchDpid p.inPort p.eth) → f ∈ x.nonWildcards := by
  obtain ⟨⟨rule, n⟩, hfirst, rfl⟩ := Option.map_eq_some_iff.mp hx
  obtain rfl : rule = some r := hr
  obtain ⟨hmem, hverdict, hnotes⟩ := firstMatch_some hfirst
  refine ⟨hmem, hverdict, fun f hf => ?_⟩
  have hof := hnotes f hf
  cases haction : r.action with
  | deny => simpa [haction, NonWildcardsPair.of] using hof
  | allow => simpa [haction, NonWildcardsPair.of] using hof

end

/-! ## Rules that keep a packet out -/

end StateFirewall

/-- The rule rejects the packet by the value of a field. -/
def FirewallRule.RejectsOn (r : FirewallRule) (p : Arrival) : OFOXMFieldType → Prop
  | .inPort => r.wildcardInPort = false ∧ r.inPort.signExtend 32 ≠ p.inPort
  | .ethSrc => r.wildcardDlSrc = false ∧ r.dlSrc ≠ p.eth.sourceMAC.setWidth 64
  | .ethDst => r.wildcardDlDst = false ∧ r.dlDst ≠ p.eth.destinationMAC.setWidth 64
  | .ethType => r.wildcardDlType = false ∧ r.dlType ≠ p.eth.etherType
  | .ipv4Src => r.wildcardDlType = false ∧ r.dlType = typeIPv4 ∧ r.wildcardNwSrc = false ∧
    ∃ ip, p.ip = some ip ∧ matchIPAddress r.nwSrcPrefix r.nwSrcMaskbits ip.sourceAddress = false
  | .ipv4Dst => r.wildcardDlType = false ∧ r.dlType = typeIPv4 ∧ r.wildcardNwDst = false ∧
    ∃ ip, p.ip = some ip ∧
      matchIPAddress r.nwDstPrefix r.nwDstMaskbits ip.destinationAddress = false
  | .ipProto => r.wildcardDlType = false ∧ r.dlType = typeIPv4 ∧ r.wildcardNwProto = false ∧
    ∃ ip, p.ip = some ip ∧ r.nwProto ≠ ip.protocol.signExtend 16 ∧
      (r.nwProto = protocolTCP.signExtend 16 ∨ r.nwProto = protocolUDP.signExtend 16 ∨
        r.nwProto = protocolICMP.signExtend 16)
  | _ => False

theorem FirewallRule.RejectsOn.of_field {r : FirewallRule} {p q : Arrival} {f : OFOXMFieldType}
    (h : r.RejectsOn p f) (hfield : q.field f = p.field f) : r.RejectsOn q f := by
  cases f with
  | inPort =>
    have heq : q.inPort = p.inPort := BitVec.eq_of_toNat_eq (Option.some_inj.mp hfield)
    exact ⟨h.1, by rw [heq]; exact h.2⟩
  | ethSrc =>
    have heq : q.eth.sourceMAC = p.eth.sourceMAC :=
      BitVec.eq_of_toNat_eq (Option.some_inj.mp hfield)
    exact ⟨h.1, by rw [heq]; exact h.2⟩
  | ethDst =>
    have heq : q.eth.destinationMAC = p.eth.destinationMAC :=
      BitVec.eq_of_toNat_eq (Option.some_inj.mp hfield)
    exact ⟨h.1, by rw [heq]; exact h.2⟩
  | ethType =>
    have heq : q.eth.etherType = p.eth.etherType :=
      BitVec.eq_of_toNat_eq (Option.some_inj.mp hfield)
    exact ⟨h.1, by rw [heq]; exact h.2⟩
  | ipv4Src =>
    obtain ⟨htyped, htype, hwild, ip, hp, hmatch⟩ := h
    obtain ⟨ip', hq, heq⟩ := Arrival.exists_of_map (g := Ip.sourceAddress) hp hfield
    exact ⟨htyped, htype, hwild, ip', hq, by rw [heq]; exact hmatch⟩
  | ipv4Dst =>
    obtain ⟨htyped, htype, hwild, ip, hp, hmatch⟩ := h
    obtain ⟨ip', hq, heq⟩ := Arrival.exists_of_map (g := Ip.destinationAddress) hp hfield
    exact ⟨htyped, htype, hwild, ip', hq, by rw [heq]; exact hmatch⟩
  | ipProto =>
    obtain ⟨htyped, htype, hwild, ip, hp, hne, hone⟩ := h
    obtain ⟨ip', hq, heq⟩ := Arrival.exists_of_map (g := Ip.protocol) hp hfield
    exact ⟨htyped, htype, hwild, ip', hq, by rw [heq]; exact hne, hone⟩
  | tcpSrc | tcpDst | udpSrc | udpDst | arpSha | arpTha => exact h.elim

namespace FirewallRule

theorem verdict_of_typeChecks {r : FirewallRule} {eth : Ethernet}
    (before after : List (Check (FirewallAction × OFOXMFieldType)))
    {c : Check (FirewallAction × OFOXMFieldType)} (h : r.typeChecks eth = before ++ c :: after)
    (hbefore : ∀ c ∈ before, c.verdict ≠ none) (hc : c.verdict = some false)
    (switchDpid : BitVec 64) (inPort : BitVec 32) :
    verdict (r.checks switchDpid inPort eth) = some false := by
  rw [checks, h, List.append_assoc, List.append_assoc, ← List.append_assoc]
  refine verdict_eq_false _ (List.forall_mem_append.mpr ⟨?_, hbefore⟩) hc
  simp [check]

/-- The checks of a rule for IPv4, on a frame with an IPv4 packet. -/
theorem typeChecks_ipv4 {r : FirewallRule} {eth : Ethernet} {ip : Ip}
    (htyped : r.wildcardDlType = false) (htype : r.dlType = typeIPv4)
    (hframe : eth.etherType = typeIPv4) (hp : eth.payload = .ipv4 ip) :
    r.typeChecks eth = r.check false .ethType :: (r.addressChecks ip.sourceAddress
      ip.destinationAddress .ipv4Src .ipv4Dst ++
        if r.wildcardNwProto then [] else r.protoChecks ip) := by
  have harp : typeIPv4 ≠ typeARP := by decide
  simp [typeChecks, htyped, htype, harp, hframe, hp]

theorem RejectsOn.verdict_ethType {r : FirewallRule} {p : Arrival} (h : r.RejectsOn p .ethType)
    (switchDpid : BitVec 64) : verdict (r.checks switchDpid p.inPort p.eth) = some false := by
  refine verdict_of_typeChecks [] [] (c := r.check true .ethType) ?_ (by simp) rfl _ _
  obtain ⟨htyped, hne⟩ := h
  rw [typeChecks, if_neg (by simp [htyped])]
  split_ifs with harp hframe hip hframe'
  · rfl
  · exact absurd (harp.trans (not_not.mp hframe).symm) hne
  · rfl
  · exact absurd (hip.trans (not_not.mp hframe').symm) hne
  · exact absurd (hip.trans (not_not.mp hframe').symm) hne
  · rfl

/-- A rule that rejects by an address or the protocol either has another type of frame, or comes
to the check. -/
theorem verdict_of_ipv4 {r : FirewallRule} {p : Arrival} {ip : Ip}
    (htyped : r.wildcardDlType = false) (htype : r.dlType = typeIPv4) (hip : p.ip = some ip)
    (before after : List (Check (FirewallAction × OFOXMFieldType)))
    {c : Check (FirewallAction × OFOXMFieldType)}
    (h : (r.addressChecks ip.sourceAddress ip.destinationAddress .ipv4Src .ipv4Dst ++
      if r.wildcardNwProto then [] else r.protoChecks ip) = before ++ c :: after)
    (hbefore : ∀ c ∈ before, c.verdict ≠ none) (hc : c.verdict = some false)
    (switchDpid : BitVec 64) : verdict (r.checks switchDpid p.inPort p.eth) = some false := by
  have hp := Arrival.ip_eq_some.mp hip
  by_cases hframe : p.eth.etherType = typeIPv4
  · refine verdict_of_typeChecks (r.check false .ethType :: before) after ?_ ?_ hc _ _
    · rw [typeChecks_ipv4 htyped htype hframe hp, h]
      rfl
    · exact List.forall_mem_cons.mpr ⟨by simp [check], hbefore⟩
  · have hother : r.RejectsOn p .ethType := ⟨htyped, fun heq => hframe (heq.symm.trans htype)⟩
    exact hother.verdict_ethType switchDpid

/-- The protocol of another packet. -/
theorem protoChecks_of_ne {r : FirewallRule} {ip : Ip} (hne : r.nwProto ≠ ip.protocol.signExtend 16)
    (hone : r.nwProto = protocolTCP.signExtend 16 ∨ r.nwProto = protocolUDP.signExtend 16 ∨
      r.nwProto = protocolICMP.signExtend 16) :
    r.protoChecks ip = [r.protoCheck true] := by
  have hproto : ∀ {x : BitVec 8}, r.nwProto = x.signExtend 16 → ip.protocol ≠ x := by
    rintro x hx rfl
    exact hne hx
  rw [protoChecks]
  split_ifs with htcp hother hudp hother'
  · rfl
  · exact absurd (not_not.mp hother) (hproto htcp)
  · rfl
  · exact absurd (not_not.mp hother') (hproto hudp)
  · have hicmp := (hone.resolve_left htcp).resolve_left hudp
    rw [decide_eq_true ⟨hicmp, hproto hicmp⟩]

/-- A rule that rejects by the value of a field lets the search go on. -/
theorem RejectsOn.verdict {r : FirewallRule} {p : Arrival} {f : OFOXMFieldType}
    (h : r.RejectsOn p f) (switchDpid : BitVec 64) :
    verdict (r.checks switchDpid p.inPort p.eth) = some false := by
  have hrejects : ∀ {w b : Bool} {f : OFOXMFieldType}, w = false → b = true →
      (r.check (!w && b) f).verdict = some false := by
    intro w b f hw hb
    rw [check, hw, hb]
    rfl
  cases f with
  | inPort => exact verdict_eq_false [_] (by simp) (hrejects h.1 (bne_iff_ne.mpr h.2))
  | ethSrc =>
    exact verdict_eq_false [_, _] (by simp [check]) (hrejects h.1 (bne_iff_ne.mpr h.2))
  | ethDst =>
    exact verdict_eq_false [_, _, _] (by simp [check]) (hrejects h.1 (bne_iff_ne.mpr h.2))
  | ethType => exact h.verdict_ethType switchDpid
  | ipv4Src =>
    obtain ⟨htyped, htype, hwild, ip, hip, hmatch⟩ := h
    exact verdict_of_ipv4 htyped htype hip [] _ rfl (by simp)
      (hrejects hwild (by rw [hmatch]; rfl)) switchDpid
  | ipv4Dst =>
    obtain ⟨htyped, htype, hwild, ip, hip, hmatch⟩ := h
    exact verdict_of_ipv4 htyped htype hip [_] _ rfl (by simp [check])
      (hrejects hwild (by rw [hmatch]; rfl)) switchDpid
  | ipProto =>
    obtain ⟨htyped, htype, hwild, ip, hip, hne, hone⟩ := h
    refine verdict_of_ipv4 htyped htype hip
      (r.addressChecks ip.sourceAddress ip.destinationAddress .ipv4Src .ipv4Dst) []
      (c := r.protoCheck true) ?_ (by simp [addressChecks, check]) rfl switchDpid
    rw [if_neg (by simp [hwild]), protoChecks_of_ne hne hone]
  | tcpSrc | tcpDst | udpSrc | udpDst | arpSha | arpTha => exact h.elim

/-- The rule is for another switch, or for frames that are neither ARP nor IPv4. -/
def Inert (r : FirewallRule) (switchDpid : BitVec 64) : Prop :=
  (r.wildcardDpid = false ∧ r.dpid ≠ switchDpid) ∨
    (r.wildcardDlType = false ∧ r.dlType ≠ typeARP ∧ r.dlType ≠ typeIPv4)

theorem Inert.verdict {r : FirewallRule} {switchDpid : BitVec 64} (h : r.Inert switchDpid)
    (p : Arrival) : verdict (r.checks switchDpid p.inPort p.eth) = some false := by
  rcases h with ⟨hwild, hne⟩ | ⟨htyped, harp, hip⟩
  · exact verdict_eq_false [] (by simp) (by simp [hwild, bne_iff_ne.mpr hne])
  · refine verdict_of_typeChecks [] [] (c := r.check true .ethType) ?_ (by simp) rfl _ _
    rw [typeChecks, if_neg (by simp [htyped]), if_neg harp, if_neg hip]
    rfl

/-! ## A rule that matches -/

/-- The rule compares the protocol addresses of ARP, which are noted as the hardware ones. -/
def ComparesArp (r : FirewallRule) : Prop :=
  r.wildcardDlType = false ∧ r.dlType = typeARP ∧
    (r.wildcardNwSrc = false ∨ r.wildcardNwDst = false)

/-- The protocol is checked once, since a rule for TCP or UDP is not passed. -/
theorem protoChecks_of_passed {r : FirewallRule} {ip : Ip}
    (hpassed : ∀ c ∈ r.protoChecks ip, c.verdict = some true) :
    ∃ b, ∀ ip' : Ip, ip'.protocol = ip.protocol → r.protoChecks ip' = [r.protoCheck b] := by
  unfold protoChecks at hpassed ⊢
  split_ifs at hpassed with htcp hother hudp hother'
  · simp [protoCheck] at hpassed
  · cases hp : ip.payload <;> simp [hp, protoCheck, portChecks, castCheck] at hpassed
  · simp [protoCheck] at hpassed
  · cases hp : ip.payload <;> simp [hp, protoCheck, portChecks, castCheck] at hpassed
  · refine ⟨decide (r.nwProto = protocolICMP.signExtend 16 ∧ ip.protocol ≠ protocolICMP),
      fun ip' hsame => ?_⟩
    rw [if_neg htcp, if_neg hudp, hsame]

section

variable {r : FirewallRule} {p q : Arrival}

/-- A rule that does not reject a packet for its type finds a payload of that type. -/
theorem typeChecks_passed_arp (htyped : r.wildcardDlType = false) (htype : r.dlType = typeARP)
    (hpassed : ∀ c ∈ r.typeChecks p.eth, c.verdict = some true) :
    p.eth.etherType = typeARP ∧ ∃ a, p.arp = some a := by
  rw [typeChecks, if_neg (by simp [htyped]), if_pos htype] at hpassed
  split_ifs at hpassed with hother
  · simp [check] at hpassed
  · refine ⟨not_not.mp hother, ?_⟩
    cases hp : p.eth.payload with
    | arp a => exact ⟨a, Arrival.arp_eq_some.mpr hp⟩
    | ipv4 ip => simp [hp, castCheck] at hpassed
    | data => simp [hp, castCheck] at hpassed

theorem typeChecks_passed_ipv4 (htyped : r.wildcardDlType = false) (htype : r.dlType = typeIPv4)
    (hpassed : ∀ c ∈ r.typeChecks p.eth, c.verdict = some true) :
    p.eth.etherType = typeIPv4 ∧ ∃ ip, p.ip = some ip := by
  have harp : ¬ r.dlType = typeARP := by
    rw [htype]
    decide
  rw [typeChecks, if_neg (by simp [htyped]), if_neg harp, if_pos htype] at hpassed
  split_ifs at hpassed with hother
  any_goals simp [check] at hpassed
  all_goals
    refine ⟨not_not.mp hother, ?_⟩
    cases hp : p.eth.payload with
    | arp a => simp [hp, castCheck] at hpassed
    | ipv4 ip => exact ⟨ip, Arrival.ip_eq_some.mpr hp⟩
    | data => simp [hp, castCheck] at hpassed

/-- The checks of a rule that has passed them for one packet, for another one that has the fields
noted for them. -/
theorem typeChecks_of_fields (harp : ¬ r.ComparesArp)
    (hpassed : ∀ c ∈ r.typeChecks p.eth, c.verdict = some true)
    (htype : q.eth.etherType = p.eth.etherType)
    (hfields : ∀ c ∈ r.typeChecks p.eth, ∀ f, (r.action, f) ∈ c.notes → q.field f = p.field f) :
    ∀ c ∈ r.typeChecks q.eth, c.verdict = some true := by
  cases hwild : r.wildcardDlType with
  | true => simp [typeChecks, hwild]
  | false =>
    by_cases hruleArp : r.dlType = typeARP
    · obtain ⟨hframe, a, ha⟩ := typeChecks_passed_arp hwild hruleArp hpassed
      have hchecks : r.typeChecks p.eth = r.check false .ethType :: r.addressChecks
          a.senderProtocolAddress a.targetProtocolAddress .arpSha .arpTha := by
        simp [typeChecks, hwild, hruleArp, hframe, Arrival.arp_eq_some.mp ha]
      rw [hchecks] at hfields
      have hsha : q.field .arpSha = p.field .arpSha :=
        hfields _ (List.mem_cons_of_mem _ List.mem_cons_self) _ List.mem_cons_self
      obtain ⟨a', ha', -⟩ := Arrival.exists_of_map (g := Arp.senderHardwareAddress) ha hsha
      have hwilds : r.wildcardNwSrc = true ∧ r.wildcardNwDst = true := by
        simpa [ComparesArp, hwild, hruleArp] using harp
      simp [typeChecks, hwild, hruleArp, htype, hframe, Arrival.arp_eq_some.mp ha', addressChecks,
        check, hwilds]
    · by_cases hruleIp : r.dlType = typeIPv4
      · obtain ⟨hframe, ip, hip⟩ := typeChecks_passed_ipv4 hwild hruleIp hpassed
        rw [typeChecks_ipv4 hwild hruleIp hframe (Arrival.ip_eq_some.mp hip)] at hfields hpassed
        have hsrc : q.field .ipv4Src = p.field .ipv4Src :=
          hfields _ (List.mem_cons_of_mem _ List.mem_cons_self) _ List.mem_cons_self
        have hdst : q.field .ipv4Dst = p.field .ipv4Dst :=
          hfields _ (List.mem_cons_of_mem _ (List.mem_cons_of_mem _ List.mem_cons_self)) _
            List.mem_cons_self
        obtain ⟨ip', hip', hsrc'⟩ := Arrival.exists_of_map (g := Ip.sourceAddress) hip hsrc
        obtain ⟨ip'', hip'', hdst'⟩ := Arrival.exists_of_map (g := Ip.destinationAddress) hip hdst
        obtain rfl := Option.some.inj (hip'.symm.trans hip'')
        have hproto : (if r.wildcardNwProto then [] else r.protoChecks ip') =
            if r.wildcardNwProto then [] else r.protoChecks ip := by
          cases hwildProto : r.wildcardNwProto with
          | true => rfl
          | false =>
            rw [hwildProto, if_neg Bool.false_ne_true] at hpassed hfields
            obtain ⟨b, hone⟩ := protoChecks_of_passed fun c hc =>
              hpassed c (List.mem_cons_of_mem _ (List.mem_append_right _ hc))
            have hnoted : q.field .ipProto = p.field .ipProto :=
              hfields (r.protoCheck b) (by simp [hone ip rfl]) _ (by simp [protoCheck])
            obtain ⟨ip'', hip'', hproto'⟩ := Arrival.exists_of_map (g := Ip.protocol) hip hnoted
            obtain rfl := Option.some.inj (hip'.symm.trans hip'')
            simp only [hone ip rfl, hone ip' hproto']
        rw [typeChecks_ipv4 hwild hruleIp (htype.trans hframe) (Arrival.ip_eq_some.mp hip'), hsrc',
          hdst', hproto]
        exact hpassed
      · rw [typeChecks, if_neg (by simp [hwild]), if_neg hruleArp, if_neg hruleIp] at hpassed
        simp [check] at hpassed

/-- A rule that matches a packet matches every one that has the fields noted for it. -/
theorem verdict_of_fields {switchDpid : BitVec 64} (harp : ¬ r.ComparesArp)
    (hp : verdict (r.checks switchDpid p.inPort p.eth) = some true)
    (hfields : ∀ f, (r.action, f) ∈ notes (r.checks switchDpid p.inPort p.eth) →
      q.field f = p.field f) : verdict (r.checks switchDpid q.inPort q.eth) = some true := by
  have hnoted {c : Check (FirewallAction × OFOXMFieldType)} {f : OFOXMFieldType}
      (hc : c ∈ r.checks switchDpid p.inPort p.eth) (hf : (r.action, f) ∈ c.notes) :
      q.field f = p.field f := hfields f (mem_notes hp hc hf)
  have hport : q.inPort = p.inPort :=
    BitVec.eq_of_toNat_eq (Option.some.inj (hnoted (f := .inPort)
      (List.mem_cons_of_mem _ List.mem_cons_self) List.mem_cons_self))
  have hsrc : q.eth.sourceMAC = p.eth.sourceMAC :=
    BitVec.eq_of_toNat_eq (Option.some.inj (hnoted (f := .ethSrc)
      (List.mem_cons_of_mem _ (List.mem_cons_of_mem _ List.mem_cons_self)) List.mem_cons_self))
  have hdst : q.eth.destinationMAC = p.eth.destinationMAC :=
    BitVec.eq_of_toNat_eq (Option.some.inj (hnoted (f := .ethDst)
      (List.mem_cons_of_mem _ (List.mem_cons_of_mem _ (List.mem_cons_of_mem _ List.mem_cons_self)))
      List.mem_cons_self))
  have htype : q.eth.etherType = p.eth.etherType :=
    BitVec.eq_of_toNat_eq (Option.some.inj (hnoted (f := .ethType)
      (List.mem_append_right _ List.mem_cons_self) List.mem_cons_self))
  have hpassed := verdict_eq_true.mp hp
  rw [checks, List.forall_mem_append, List.forall_mem_append] at hpassed
  obtain ⟨⟨hhead, htypes⟩, hlast⟩ := hpassed
  rw [verdict_eq_true, checks, List.forall_mem_append, List.forall_mem_append, hport, hsrc, hdst]
  refine ⟨⟨hhead, typeChecks_of_fields harp htypes htype fun c hc f hf => hnoted ?_ hf⟩, hlast⟩
  exact List.mem_append_left _ (List.mem_append_right _ hc)

end

end FirewallRule

namespace StateFirewall

/-! ## When the fields are enough -/

/-- The rule matches no packet at the switch, or rejects the packet by a field that is returned
for it. -/
def Guarded (switchDpid : BitVec 64) (p : Arrival) (x : RuleWildcardsPair) (r : FirewallRule) :
    Prop :=
  r.Inert switchDpid ∨ ∃ f ∈ x.nonWildcards, r.RejectsOn p f

/-- The fields returned are enough if every rule before the one found is guarded, and the one found
does not compare the addresses of ARP. -/
theorem covers_of_guarded {rules : List FirewallRule} {switchDpid : BitVec 64} {p : Arrival}
    {x : RuleWildcardsPair} (hx : matchWithRule rules switchDpid p.inPort p.eth = some x)
    (hguarded : ∀ r ∈ rules.takeWhile (fun r => some r != x.rule), Guarded switchDpid p x r)
    (harp : ∀ r, x.rule = some r → ¬ r.ComparesArp) : Covers rules switchDpid p x := by
  intro q hq
  have hbefore : ∀ r ∈ rules.takeWhile (fun r => some r != x.rule),
      verdict (r.checks switchDpid q.inPort q.eth) = some false := by
    intro r hr
    rcases hguarded r hr with hinert | ⟨f, hf, hrejects⟩
    · exact hinert.verdict q
    · exact (hrejects.of_field (hq f hf)).verdict switchDpid
  rw [← List.takeWhile_append_dropWhile (p := fun r => some r != x.rule) (l := rules),
    outcome_append hbefore]
  cases hrule : x.rule with
  | none =>
    -- no rule is the one found: the search comes to the end of the list
    have hall : rules.dropWhile (fun r => some r != none) = [] :=
      List.dropWhile_eq_nil_iff.mpr fun r _ => rfl
    rw [hall]
    rfl
  | some r =>
    obtain ⟨hmem, hverdict, hnotes⟩ := matchWithRule_some hx hrule
    cases hrest : rules.dropWhile (fun s => some s != some r) with
    | nil =>
      have hne := List.dropWhile_eq_nil_iff.mp hrest r hmem
      exact absurd rfl (bne_iff_ne.mp hne)
    | cons s after =>
      have hs := List.head_dropWhile_not (l := rules) (fun s => some s != some r)
        (by simp [hrest])
      obtain rfl : s = r := by simpa [hrest] using hs
      exact outcome_of_matched
        (FirewallRule.verdict_of_fields (harp s hrule) hverdict fun f hf => hq f (hnotes f hf))

/-- Port 1 and one address are closed, and a network is open. -/
def openNetwork : List FirewallRule :=
  [{ wildcardInPort := false, inPort := 1, action := .deny },
    { wildcardDlType := false, dlType := typeIPv4, wildcardNwSrc := false,
      nwSrcPrefix := 0x0a000001, nwSrcMaskbits := 32, action := .deny },
    { wildcardDlType := false, dlType := typeIPv4, wildcardNwDst := false,
      nwDstPrefix := 0x0a000000, nwDstMaskbits := 8 }]

/-- A packet from 10.0.0.2 to 10.0.0.3 at port 2, with the fields that are returned for it. -/
theorem covers_openNetwork :
    Covers openNetwork 1
      ⟨2, 3, 4, typeIPv4, .ipv4 ⟨protocolTCP, 0x0a000002, 0x0a000003, .tcp 1000 80⟩⟩
      ⟨openNetwork.getLast?, {.ipv4Dst, .ipv4Src, .ethType, .ethDst, .ethSrc, .inPort}⟩ := by
  refine covers_of_guarded rfl ?_ ?_
  · have hbefore : openNetwork.takeWhile (fun r => some r != openNetwork.getLast?) =
        openNetwork.take 2 := by decide
    rw [hbefore]
    simp only [openNetwork, List.take_succ_cons, List.take_zero, List.forall_mem_cons]
    refine ⟨.inr ⟨.inPort, by decide, rfl, by decide⟩,
      .inr ⟨.ipv4Src, by decide, rfl, rfl, rfl, _, rfl, by decide⟩, ?_⟩
    simp
  · intro r hr
    obtain rfl := Option.some.inj hr
    rintro ⟨-, htype, -⟩
    exact absurd htype (by decide)

/-- One address is closed, all other packets are allowed. -/
def closedAddress : List FirewallRule :=
  [{ wildcardDlType := false, dlType := typeIPv4, wildcardNwSrc := false, nwSrcPrefix := 0x0a000001,
     nwSrcMaskbits := 32, action := .deny }, {}]

/-- A packet from another address is allowed with fields that do not have the address. -/
theorem closedAddress_escaped :
    ∃ x, matchWithRule closedAddress 1 2
        ⟨3, 4, typeIPv4, .ipv4 ⟨protocolTCP, 0x0a000002, 6, .tcp 1000 80⟩⟩ = some x ∧
      x.rule.map FirewallRule.action = some .allow ∧
      outcome closedAddress 1
        ⟨2, 3, 4, typeIPv4, .ipv4 ⟨protocolTCP, 0x0a000001, 6, .tcp 1000 80⟩⟩ = some (some .deny) ∧
      ¬ Covers closedAddress 1
        ⟨2, 3, 4, typeIPv4, .ipv4 ⟨protocolTCP, 0x0a000002, 6, .tcp 1000 80⟩⟩ x := by
  refine ⟨⟨some {}, {.ethType, .ethDst, .ethSrc, .inPort}⟩, rfl, rfl, rfl, fun hcovers => ?_⟩
  have hsame := hcovers ⟨2, 3, 4, typeIPv4, .ipv4 ⟨protocolTCP, 0x0a000001, 6, .tcp 1000 80⟩⟩
    (by decide)
  exact absurd hsame (by decide)

end StateFirewall

end Sdpa.Controller.Firewall
