import Sdpa.Controller.RuleMatching
import Sdpa.Controller.StateFirewall
import Sdpa.Lib.Ordered

/-!
# The order of the rules

The rule list stays sorted by priority, with the newer rule first where priorities
are equal, and a packet gets the first rule in it that matches. The search ends in
an exception for a packet whose payload is not of the class that a rule asks for.
-/
namespace Sdpa.Controller.Firewall

open Lib.Checks
open Lib.Ordered

namespace StateFirewall

/-- Call number `i` adds the rule. -/
def AddedAt (calls : List Call) (i : Nat) (r : FirewallRule) : Prop :=
  ∃ objectHash rule, calls[i]? = some (.addRule objectHash rule) ∧ r = identified objectHash rule

/-- No two calls give the same id. -/
def DistinctIds (calls : List Call) : Prop :=
  ∀ i j a b, AddedAt calls i a → AddedAt calls j b → a.ruleid = b.ruleid → i = j

/-- The list has the rules that have been added and not deleted, in their order. -/
structure Precedence (calls : List Call) (rules : List FirewallRule) : Prop where
  sorted : rules.Pairwise fun a b => a.priority.toInt ≤ b.priority.toInt
  newer : rules.Pairwise fun a b =>
    a.priority = b.priority → ∀ i j, AddedAt calls i a → AddedAt calls j b → j < i
  mem_iff : ∀ r, r ∈ rules ↔
    ∃ i, AddedAt calls i r ∧ ∀ j, i < j → calls[j]? ≠ some (.deleteRule r.ruleid)
  distinct : (rules.map FirewallRule.ruleid).Nodup

theorem AddedAt.lt {calls : List Call} {i : Nat} {r : FirewallRule} (h : AddedAt calls i r) :
    i < calls.length := by
  obtain ⟨objectHash, rule, hget, -⟩ := h
  exact (List.getElem?_eq_some_iff.mp hget).1

theorem addedAt_concat {calls : List Call} {c : Call} {i : Nat} {r : FirewallRule} :
    AddedAt (calls ++ [c]) i r ↔ AddedAt calls i r ∨
      i = calls.length ∧ ∃ objectHash rule, c = .addRule objectHash rule ∧
        r = identified objectHash rule := by
  constructor
  · intro ⟨objectHash, rule, hget, hr⟩
    by_cases hi : i < calls.length
    · rw [List.getElem?_append_left hi] at hget
      exact Or.inl ⟨objectHash, rule, hget, hr⟩
    · have hlen := (List.getElem?_eq_some_iff.mp hget).1
      have hlast : i = calls.length := by
        rw [List.length_append, List.length_singleton] at hlen
        omega
      rw [hlast, List.getElem?_concat_length] at hget
      exact Or.inr ⟨hlast, objectHash, rule, Option.some_inj.mp hget, hr⟩
  · rintro (h | ⟨rfl, objectHash, rule, rfl, hr⟩)
    · have hi := h.lt
      obtain ⟨objectHash, rule, hget, hr⟩ := h
      exact ⟨objectHash, rule, by rw [List.getElem?_append_left hi, hget], hr⟩
    · exact ⟨objectHash, rule, List.getElem?_concat_length, hr⟩

theorem DistinctIds.of_concat {calls : List Call} {c : Call} (h : DistinctIds (calls ++ [c])) :
    DistinctIds calls :=
  fun i j a b ha hb => h i j a b (addedAt_concat.mpr (.inl ha)) (addedAt_concat.mpr (.inl hb))

/-- The calls after one more, which deletes only the rules with the id that it names. -/
theorem kept_concat {calls : List Call} {c : Call} {i : Nat} {r : FirewallRule}
    (hi : i < calls.length) :
    (∀ j, i < j → (calls ++ [c])[j]? ≠ some (.deleteRule r.ruleid)) ↔
      (∀ j, i < j → calls[j]? ≠ some (.deleteRule r.ruleid)) ∧ c ≠ .deleteRule r.ruleid := by
  constructor
  · intro h
    refine ⟨fun j hj hget => ?_, fun hc => ?_⟩
    · have hlen := (List.getElem?_eq_some_iff.mp hget).1
      exact h j hj (by rw [List.getElem?_append_left hlen, hget])
    · exact h calls.length hi (by rw [List.getElem?_concat_length, hc])
  · intro ⟨hold, hc⟩ j hj hget
    by_cases hlen : j < calls.length
    · rw [List.getElem?_append_left hlen] at hget
      exact hold j hj hget
    · have hj' := (List.getElem?_eq_some_iff.mp hget).1
      rw [List.length_append, List.length_singleton] at hj'
      have hlast : j = calls.length := by omega
      rw [hlast, List.getElem?_concat_length] at hget
      exact hc (Option.some_inj.mp hget)

theorem insertRule_eq (rules : List FirewallRule) (rule : FirewallRule) :
    insertRule rules rule =
      rules.orderedInsert (fun x y => x.priority.toInt ≤ y.priority.toInt) rule := by
  rw [insertRule, ← insertIdx_findIdx]
  simp only [BitVec.sle_eq_decide]

/-- The list stays sorted by priority, whatever the ids. -/
theorem sorted_run (calls : List Call) :
    (run calls).rules.Pairwise fun a b => a.priority.toInt ≤ b.priority.toInt := by
  induction calls using List.reverseRecOn with
  | nil => exact .nil
  | append_singleton calls c ih =>
    rw [run, List.foldl_concat]
    cases c with
    | addRule objectHash rule =>
      show (insertRule (run calls).rules (identified objectHash rule)).Pairwise _
      rw [insertRule_eq]
      exact pairwise_orderedInsert ih ih (fun x _ hle => hle) fun x _ hlt => hlt.le
    | deleteRule ruleid => exact ih.sublist List.eraseP_sublist

theorem Precedence.exists_addedAt {calls : List Call} {rules : List FirewallRule}
    (h : Precedence calls rules) {r : FirewallRule} (hr : r ∈ rules) : ∃ i, AddedAt calls i r := by
  obtain ⟨i, hi, -⟩ := (h.mem_iff r).mp hr
  exact ⟨i, hi⟩

/-- A rule that is added comes before the rules of its priority. -/
theorem Precedence.addRule {calls : List Call} {s : StateFirewall} (h : Precedence calls s.rules)
    {objectHash : BitVec 32} {rule : FirewallRule}
    (hids : DistinctIds (calls ++ [.addRule objectHash rule])) :
    Precedence (calls ++ [.addRule objectHash rule]) (s.addRule objectHash rule).rules := by
  have hnew : AddedAt (calls ++ [.addRule objectHash rule]) calls.length
      (identified objectHash rule) := addedAt_concat.mpr (.inr ⟨rfl, objectHash, rule, rfl, rfl⟩)
  -- The index of an addition is unique, so an old rule was added before.
  have hold : ∀ x ∈ s.rules, ∀ i, AddedAt (calls ++ [.addRule objectHash rule]) i x →
      i < calls.length := by
    intro x hx i hi
    obtain ⟨k, hk⟩ := h.exists_addedAt hx
    rw [hids i k x x hi (addedAt_concat.mpr (.inl hk)) rfl]
    exact hk.lt
  have hfresh : ∀ x ∈ s.rules, x.ruleid ≠ (identified objectHash rule).ruleid := by
    intro x hx hid
    obtain ⟨k, hk⟩ := h.exists_addedAt hx
    have hlast := hids k _ x _ (addedAt_concat.mpr (.inl hk)) hnew hid
    exact absurd hk.lt (by omega)
  show Precedence _ (insertRule s.rules (identified objectHash rule))
  rw [insertRule_eq]
  refine ⟨?_, ?_, fun r => ?_, ?_⟩
  · exact pairwise_orderedInsert h.sorted h.sorted (fun x _ hle => hle) fun x _ hlt => hlt.le
  · refine pairwise_orderedInsert h.sorted ?_ (fun x hx _ _ i j hi hj => ?_) fun x _ hlt heq => ?_
    · refine h.newer.imp_of_mem fun {a b} ha hb hab heq i j hi hj => ?_
      have hi' := addedAt_concat.mp hi
      have hj' := addedAt_concat.mp hj
      exact hab heq i j (hi'.resolve_right fun hlast => by have := hold a ha i hi; omega)
        (hj'.resolve_right fun hlast => by have := hold b hb j hj; omega)
    · have hlast := hids i _ _ _ hi hnew rfl
      have := hold x hx j hj
      omega
    · rw [heq] at hlt
      exact absurd hlt (lt_irrefl _)
  · rw [List.mem_orderedInsert, h.mem_iff]
    constructor
    · rintro (rfl | ⟨i, hi, hkept⟩)
      · refine ⟨calls.length, hnew, fun j hj hget => ?_⟩
        have hlen := (List.getElem?_eq_some_iff.mp hget).1
        rw [List.length_append, List.length_singleton] at hlen
        omega
      · exact ⟨i, addedAt_concat.mpr (.inl hi), (kept_concat hi.lt).mpr ⟨hkept, by simp⟩⟩
    · rintro ⟨i, hi, hkept⟩
      rcases addedAt_concat.mp hi with hi' | ⟨-, hash, rule', hc, rfl⟩
      · exact Or.inr ⟨i, hi', ((kept_concat hi'.lt).mp hkept).1⟩
      · cases hc
        exact Or.inl rfl
  · have hperm := (List.perm_orderedInsert
      (fun x y : FirewallRule => x.priority.toInt ≤ y.priority.toInt)
      (identified objectHash rule) s.rules).map FirewallRule.ruleid
    rw [hperm.nodup_iff, List.map_cons, List.nodup_cons]
    refine ⟨fun hmem => ?_, h.distinct⟩
    obtain ⟨x, hx, hid⟩ := List.mem_map.mp hmem
    exact hfresh x hx hid

theorem Precedence.deleteRule {calls : List Call} {s : StateFirewall} (h : Precedence calls s.rules)
    (ruleid : BitVec 32) :
    Precedence (calls ++ [.deleteRule ruleid]) (s.deleteRule ruleid).rules := by
  have hadded : ∀ i r, AddedAt (calls ++ [.deleteRule ruleid]) i r ↔ AddedAt calls i r := by
    intro i r
    rw [addedAt_concat]
    refine or_iff_left ?_
    rintro ⟨-, objectHash, rule, hc, -⟩
    cases hc
  show Precedence _ (s.rules.eraseP fun r => r.ruleid == ruleid)
  rw [eraseP_eq_filter (length_filter_le_one h.distinct ruleid)]
  refine ⟨h.sorted.filter _, ?_, fun r => ?_, ?_⟩
  · refine (h.newer.filter _).imp fun {a b} hab heq i j hi hj => ?_
    exact hab heq i j ((hadded i a).mp hi) ((hadded j b).mp hj)
  · rw [List.mem_filter, h.mem_iff, bne_iff_ne]
    constructor
    · rintro ⟨⟨i, hi, hkept⟩, hne⟩
      refine ⟨i, (hadded i r).mpr hi, (kept_concat hi.lt).mpr ⟨hkept, fun hc => ?_⟩⟩
      cases hc
      exact hne rfl
    · rintro ⟨i, hi, hkept⟩
      have hi' := (hadded i r).mp hi
      obtain ⟨hold, hc⟩ := (kept_concat hi'.lt).mp hkept
      exact ⟨⟨i, hi', hold⟩, fun hid => hc (by rw [hid])⟩
  · exact h.distinct.sublist (List.filter_sublist.map _)

theorem precedence_run {calls : List Call} (hids : DistinctIds calls) :
    Precedence calls (run calls).rules := by
  induction calls using List.reverseRecOn with
  | nil =>
    refine ⟨.nil, .nil, fun r => ⟨fun hr => absurd hr (by simp [run]), ?_⟩, List.nodup_nil⟩
    rintro ⟨i, hi, -⟩
    exact absurd hi.lt (by simp)
  | append_singleton calls c ih =>
    have hbefore := ih hids.of_concat
    rw [run, List.foldl_concat]
    cases c with
    | addRule objectHash rule => exact hbefore.addRule hids
    | deleteRule ruleid => exact hbefore.deleteRule ruleid

/-! ## The search -/

/-- `matchesFlow` is true of the rule. -/
def matchesPacket (switchDpid : BitVec 64) (inPort : BitVec 32) (eth : Ethernet)
    (rule : FirewallRule) : Bool :=
  (rule.matchesFlow switchDpid inPort eth {}).map Prod.fst == some true

/-- `matchWithRule` returns the first rule that matches, and none if there is none. -/
def FindsFirst (rules : List FirewallRule) (switchDpid : BitVec 64) (inPort : BitVec 32)
    (eth : Ethernet) : Prop :=
  ∃ fields, matchWithRule rules switchDpid inPort eth =
    some ⟨rules.find? (matchesPacket switchDpid inPort eth), fields⟩

theorem firstMatch_of_parsed {eth : Ethernet} (h : eth.Parsed) (switchDpid : BitVec 64)
    (inPort : BitVec 32) (rules : List FirewallRule) (n : NonWildcardsPair) :
    ∃ n', firstMatch switchDpid inPort eth rules n =
      some (rules.find? (matchesPacket switchDpid inPort eth), n') := by
  induction rules generalizing n with
  | nil => exact ⟨n, rfl⟩
  | cons rule rules ih =>
    have hsome := verdict_isSome (rule.checks_verdict h switchDpid inPort)
    obtain ⟨b, hb⟩ := Option.ne_none_iff_exists'.mp hsome
    have hrun : rule.matchesFlow switchDpid inPort eth n =
        some (b, (notes (rule.checks switchDpid inPort eth)).foldl .add n) := by
      rw [FirewallRule.matchesFlow_eq, run_eq, hb]
      rfl
    have hmatch : matchesPacket switchDpid inPort eth rule = b := by
      rw [matchesPacket, FirewallRule.map_fst_matchesFlow, hb]
      cases b <;> rfl
    rw [firstMatch, hrun, List.find?_cons, hmatch]
    cases b with
    | true => exact ⟨_, rfl⟩
    | false => exact ih _

theorem findsFirst_of_parsed {eth : Ethernet} (h : eth.Parsed) (rules : List FirewallRule)
    (switchDpid : BitVec 64) (inPort : BitVec 32) : FindsFirst rules switchDpid inPort eth := by
  obtain ⟨n', hrun⟩ := firstMatch_of_parsed h switchDpid inPort rules {}
  exact ⟨_, by rw [matchWithRule, hrun]; rfl⟩

/-- The rules keep their order and a packet gets the first one that matches. -/
def Ordered (calls : List Call) (eth : Ethernet) : Prop :=
  Precedence calls (run calls).rules ∧
    ∀ switchDpid inPort, FindsFirst (run calls).rules switchDpid inPort eth

/-- The only rule that is added is tried. -/
theorem verdict_of_ordered {rule : FirewallRule} {eth : Ethernet}
    (h : Ordered [.addRule 0 rule] eth) :
    verdict ((identified 0 rule).checks 0 0 eth) ≠ none := by
  intro hnone
  obtain ⟨fields, hfind⟩ := h.2 0 0
  have hrun : (identified 0 rule).matchesFlow 0 0 eth {} = none := by
    rw [FirewallRule.matchesFlow_eq, run_eq, hnone]
    rfl
  have hrules : (run [.addRule 0 rule]).rules = [identified 0 rule] := rfl
  rw [hrules, matchWithRule, firstMatch, hrun] at hfind
  cases hfind

theorem distinctIds_singleton (c : Call) : DistinctIds [c] := by
  intro i j a b ha hb _
  have hi := ha.lt
  have hj := hb.lt
  rw [List.length_singleton] at hi hj
  omega

/-- A rule that asks for the payloads of a type of frame and a protocol. -/
def asksFor (dlType nwProto : BitVec 16) : FirewallRule :=
  { wildcardDlType := false, dlType := dlType, wildcardNwProto := false, nwProto := nwProto }

/-- Every run keeps the order and finds the first rule for a packet if and only if its payloads
are of the classes that the frame and the protocol call for. -/
theorem ordered_iff_parsed (eth : Ethernet) :
    (∀ calls, DistinctIds calls → Ordered calls eth) ↔ eth.Parsed := by
  constructor
  · intro hall
    have hasks := fun dlType nwProto =>
      verdict_of_ordered (hall [.addRule 0 (asksFor dlType nwProto)] (distinctIds_singleton _))
    have harp : typeARP ≠ typeIPv4 := by decide
    refine ⟨fun htype => ?_, fun htype => ?_⟩
    · cases hp : eth.payload with
      | arp p => exact ⟨p, rfl⟩
      | _ =>
        refine absurd ?_ (hasks typeARP 0)
        simp [FirewallRule.checks, FirewallRule.typeChecks, FirewallRule.check, identified, asksFor,
          verdict, FirewallRule.castCheck, htype, hp]
    · cases hp : eth.payload with
      | ipv4 p =>
        refine ⟨p, rfl, fun hproto => ?_, fun hproto => ?_⟩
        · cases hseg : p.payload with
          | tcp src dst => exact ⟨src, dst, rfl⟩
          | _ =>
            refine absurd ?_ (hasks typeIPv4 (protocolTCP.signExtend 16))
            simp [FirewallRule.checks, FirewallRule.typeChecks, FirewallRule.check, identified,
              asksFor, verdict, FirewallRule.castCheck, FirewallRule.addressChecks,
              FirewallRule.protoChecks, htype, hp, hseg, hproto, harp.symm]
        · cases hseg : p.payload with
          | udp src dst => exact ⟨src, dst, rfl⟩
          | _ =>
            refine absurd ?_ (hasks typeIPv4 (protocolUDP.signExtend 16))
            have hne : protocolUDP.signExtend 16 ≠ protocolTCP.signExtend 16 := by decide
            simp [FirewallRule.checks, FirewallRule.typeChecks, FirewallRule.check, identified,
              asksFor, verdict, FirewallRule.castCheck, FirewallRule.addressChecks,
              FirewallRule.protoChecks, htype, hp, hseg, hproto, harp.symm, hne]
      | _ =>
        refine absurd ?_ (hasks typeIPv4 0)
        simp [FirewallRule.checks, FirewallRule.typeChecks, FirewallRule.check, identified, asksFor,
          verdict, FirewallRule.castCheck, htype, hp, harp.symm]
  · intro hparsed calls hids
    exact ⟨precedence_run hids, findsFirst_of_parsed hparsed _⟩

/-- A fragment of a TCP connection, with a rule for TCP in the list. -/
theorem fragment_fails :
    DistinctIds [.addRule 7 (asksFor typeIPv4 6)] ∧
      matchWithRule (run [.addRule 7 (asksFor typeIPv4 6)]).rules 1 1
        ⟨3, 4, typeIPv4, .ipv4 ⟨protocolTCP, 1, 2, .data⟩⟩ = none ∧
      ¬ Ordered [.addRule 7 (asksFor typeIPv4 6)]
        ⟨3, 4, typeIPv4, .ipv4 ⟨protocolTCP, 1, 2, .data⟩⟩ := by
  have hfails : matchWithRule (run [.addRule 7 (asksFor typeIPv4 6)]).rules 1 1
      ⟨3, 4, typeIPv4, .ipv4 ⟨protocolTCP, 1, 2, .data⟩⟩ = none := rfl
  refine ⟨distinctIds_singleton _, hfails, fun hordered => ?_⟩
  obtain ⟨fields, hfind⟩ := hordered.2 1 1
  rw [hfails] at hfind
  cases hfind

end StateFirewall

end Sdpa.Controller.Firewall
