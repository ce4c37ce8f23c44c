import Sdpa.Controller.RulePrecedence
import Sdpa.Controller.RuleStorage

/-!
# Rules after a restart

The table has a row for each rule of the list, and a rule is parsed back from its
row. The wildcards of the ports are not read back, and the comparison of two
priorities by their difference can overflow.
-/
namespace Sdpa.Controller.Firewall

open Lib.Comparator
open Lib.Ordered

namespace StateFirewall

/-! ## The table follows the list -/

/-- No call deletes by an id that several rules of the list have. -/
def UniqueDeletes (calls : List Call) : Prop :=
  ∀ before ruleid after, calls = before ++ .deleteRule ruleid :: after →
    ((run before).rules.filter fun r => r.ruleid == ruleid).length ≤ 1

theorem uniqueDeletes_of_not_mem {calls : List Call}
    (h : ∀ ruleid, Call.deleteRule ruleid ∉ calls) : UniqueDeletes calls := by
  intro before ruleid after hsplit
  exact absurd (hsplit ▸ List.mem_append_right before List.mem_cons_self) (h ruleid)

theorem UniqueDeletes.of_concat {calls : List Call} {c : Call} (h : UniqueDeletes (calls ++ [c])) :
    UniqueDeletes calls := by
  intro before ruleid after hsplit
  refine h before ruleid (after ++ [c]) ?_
  rw [hsplit, List.append_assoc, List.cons_append]

theorem valueOf_injective {w : Nat} {a b : BitVec w} (h : valueOf a = valueOf b) :
    a = b := by
  have ha := parseInt_valueOf a
  rw [h, parseInt_valueOf b] at ha
  exact (Option.some_inj.mp ha).symm

theorem storage_perm {calls : List Call} (h : UniqueDeletes calls) :
    (run calls).storage.Perm ((run calls).rules.map FirewallRule.entry) := by
  induction calls using List.reverseRecOn with
  | nil => exact .refl _
  | append_singleton calls c ih =>
    have hbefore := ih h.of_concat
    rw [run, List.foldl_concat]
    cases c with
    | addRule objectHash rule =>
      show ((run calls).storage ++ [_]).Perm ((insertRule (run calls).rules _).map _)
      have hinsert := (List.perm_insertIdx (identified objectHash rule) (run calls).rules
        (List.findIdx_le_length (p := fun x =>
          (identified objectHash rule).priority.sle x.priority))).map FirewallRule.entry
      refine .trans ?_ hinsert.symm
      rw [List.map_cons]
      exact (List.perm_append_singleton _ _).trans (hbefore.cons _)
    | deleteRule ruleid =>
      show ((run calls).storage.filter _).Perm (((run calls).rules.eraseP _).map _)
      rw [eraseP_eq_filter (h calls ruleid [] rfl)]
      have hrows : ∀ r : FirewallRule,
          (r.entry .ruleid != some (valueOf ruleid)) = (r.ruleid != ruleid) := by
        intro r
        have hiff : valueOf r.ruleid = valueOf ruleid ↔ r.ruleid = ruleid :=
          ⟨valueOf_injective, fun heq => by rw [heq]⟩
        simp [FirewallRule.entry, bne, hiff]
      have hfilter := hbefore.filter fun row => row .ruleid != some (valueOf ruleid)
      rw [List.filter_map] at hfilter
      simpa [Function.comp_def, hrows] using hfilter

/-! ## Comparisons -/

/-- The difference of any two priorities is an `int`. -/
def PrioritiesFit (rules : List FirewallRule) : Prop :=
  ∀ a ∈ rules, ∀ b ∈ rules, a.priority.toInt - b.priority.toInt < 2 ^ 31

theorem compareTo_eq (a b : FirewallRule) :
    compareTo a b = (a.priority.toInt - b.priority.toInt).bmod (2 ^ 32) := by
  rw [compareTo, BitVec.toInt_sub]

theorem compareTo_of_fit {rules : List FirewallRule} (h : PrioritiesFit rules) :
    ∀ a ∈ rules, ∀ b ∈ rules, compareTo a b = a.priority.toInt - b.priority.toInt := by
  intro a ha b hb
  have hab := h a ha b hb
  have hba := h b hb a ha
  rw [compareTo_eq, Int.bmod_eq_of_le (by omega) (by omega)]

/-- A difference that is no `int` has the wrong sign. -/
theorem compareTo_neg_of_not_fit {a b : FirewallRule}
    (h : 2 ^ 31 ≤ a.priority.toInt - b.priority.toInt) : compareTo a b < 0 := by
  have ha := BitVec.toInt_lt (x := a.priority)
  have hb := BitVec.le_toInt b.priority
  rw [compareTo_eq, Int.bmod]
  omega

/-! ## The restart -/

/-- The list read back has the same rules in order of their priorities, and with different
priorities the search comes to the same. -/
structure Restored (s : StateFirewall) (l : List FirewallRule) : Prop where
  rules : l.Perm s.rules
  sorted : l.Pairwise fun a b => a.priority.toInt ≤ b.priority.toInt
  decisions : (s.rules.map FirewallRule.priority).Nodup → ∀ switchDpid inPort eth,
    matchWithRule l switchDpid inPort eth = matchWithRule s.rules switchDpid inPort eth

/-- Whatever the order of the rows, and the sort within its contract. -/
def Restores (s : StateFirewall) : Prop :=
  ∀ sort, Sorts compareTo sort → ∀ rows, rows.Perm (s.storage.map queried) →
    ∃ l, readRulesFromStorage sort rows = some l ∧ Restored s l

/-- The rows that the query returns are those of the rules, in some order. -/
theorem readRulesFromStorage_eq {calls : List Call} (h : UniqueDeletes calls)
    (sort : List FirewallRule → Option (List FirewallRule)) {rows : List Row}
    (hrows : rows.Perm ((run calls).storage.map queried)) :
    ∃ rules : List FirewallRule, rules.Perm (run calls).rules ∧
      readRulesFromStorage sort rows = sort (rules.map FirewallRule.restored) := by
  have hperm : rows.Perm ((run calls).rules.map fun r => queried r.entry) := by
    have hstored := (storage_perm h).map queried
    rw [List.map_map] at hstored
    exact hrows.trans hstored
  have hmap := congrFun (congrFun
    (List.eq_map_comp_perm fun r : FirewallRule => queried r.entry) rows) (run calls).rules
  obtain ⟨rules, rfl, hrules⟩ := hmap.mpr hperm
  refine ⟨rules, hrules, ?_⟩
  rw [readRulesFromStorage, readRows_entries]
  rfl

/-- Rules with wildcards for the ports and priorities that fit are restored. -/
theorem restored_of_sort {calls : List Call} {l : List FirewallRule}
    (hrules : l.Perm (run calls).rules)
    (hsorted : l.Pairwise fun a b => a.priority.toInt ≤ b.priority.toInt) :
    Restored (run calls) l := by
  refine ⟨hrules, hsorted, fun hdistinct switchDpid inPort eth => ?_⟩
  have heq : l = (run calls).rules := by
    refine List.Perm.eq_of_pairwise (fun a b ha hb hab hba => ?_) hsorted (sorted_run calls) hrules
    have hprio : a.priority = b.priority := BitVec.eq_of_toInt_eq (by omega)
    exact List.inj_on_of_nodup_map hdistinct (hrules.mem_iff.mp ha) hb hprio
  rw [heq]

/-- A sort that fails where it is not bound: what is read back has been compared in a consistent
way. -/
theorem exists_restored {calls : List Call} (h : UniqueDeletes calls)
    (hrestores : Restores (run calls)) :
    ∃ l rules : List FirewallRule, Restored (run calls) l ∧
      l.Perm (rules.map FirewallRule.restored) ∧
      Consistent compareTo (rules.map FirewallRule.restored) ∧
      l.Pairwise fun a b => compareTo a b ≤ 0 := by
  obtain ⟨sort, hsorts, hfails⟩ := exists_sorts compareTo
  obtain ⟨l, hread, hl⟩ := hrestores sort hsorts _ (.refl _)
  obtain ⟨rules, -, heq⟩ := readRulesFromStorage_eq h sort (.refl _)
  rw [heq] at hread
  have hconsistent : Consistent compareTo (rules.map FirewallRule.restored) := by
    by_contra hnot
    rw [hfails _ hnot] at hread
    cases hread
  obtain ⟨l', hsort, hperm, hcompared⟩ := hsorts _ hconsistent
  rw [hread, Option.some_inj] at hsort
  subst hsort
  exact ⟨l, rules, hl, hperm, hconsistent, hcompared⟩

theorem wildcards_of_restores {calls : List Call} (h : UniqueDeletes calls)
    (hrestores : Restores (run calls)) :
    ∀ r ∈ (run calls).rules, r.wildcardTpSrc = true ∧ r.wildcardTpDst = true := by
  obtain ⟨l, rules, hl, hperm, -, -⟩ := exists_restored h hrestores
  intro r hr
  obtain ⟨r', -, rfl⟩ := List.mem_map.mp (hperm.mem_iff.mp (hl.rules.mem_iff.mpr hr))
  exact ⟨rfl, rfl⟩

theorem prioritiesFit_of_restores {calls : List Call} (h : UniqueDeletes calls)
    (hrestores : Restores (run calls)) : PrioritiesFit (run calls).rules := by
  obtain ⟨l, rules, hl, hperm, hconsistent, hcompared⟩ := exists_restored h hrestores
  intro a ha b hb
  by_contra hover
  have ha' := hl.rules.mem_iff.mpr ha
  have hb' := hl.rules.mem_iff.mpr hb
  have hneg := compareTo_neg_of_not_fit (a := a) (b := b) (by omega)
  have hpos := (hconsistent.swap b (hperm.mem_iff.mp hb') a (hperm.mem_iff.mp ha')).mpr hneg
  have hne : a ≠ b := by
    rintro rfl
    omega
  -- The list is sorted by priority and by comparison.
  have hboth := rel_or_rel (hl.sorted.and hcompared) ha' hb' hne
  omega

/-- In every run in which no call deletes by an id of several rules, the rules survive a restart if
and only if they have wildcards for the ports and the difference of no two priorities
overflows. -/
theorem restores_iff {calls : List Call} (h : UniqueDeletes calls) :
    Restores (run calls) ↔
      (∀ r ∈ (run calls).rules, r.wildcardTpSrc = true ∧ r.wildcardTpDst = true) ∧
        PrioritiesFit (run calls).rules := by
  constructor
  · intro hrestores
    exact ⟨wildcards_of_restores h hrestores, prioritiesFit_of_restores h hrestores⟩
  · intro ⟨hflags, hfit⟩ sort hsorts rows hrows
    obtain ⟨rules, hrules, heq⟩ := readRulesFromStorage_eq h sort hrows
    have hsame : rules.map FirewallRule.restored = rules := by
      refine (List.map_congr_left fun r hr => ?_).trans (List.map_id rules)
      obtain ⟨hsrc, hdst⟩ := hflags r (hrules.mem_iff.mp hr)
      exact FirewallRule.restored_eq_self hsrc hdst
    have hfit' : PrioritiesFit rules := fun a ha b hb =>
      hfit a (hrules.mem_iff.mp ha) b (hrules.mem_iff.mp hb)
    have hexact := compareTo_of_fit hfit'
    obtain ⟨l, hsort, hperm, hcompared⟩ := hsorts rules (consistent_of_key hexact)
    refine ⟨l, by rw [heq, hsame, hsort], restored_of_sort (hperm.trans hrules) ?_⟩
    refine hcompared.imp_of_mem fun {a b} ha hb hab => ?_
    rw [hexact a (hperm.mem_iff.mp ha) b (hperm.mem_iff.mp hb)] at hab
    omega

/-- Two rules that deny and allow, with wildcards for the ports. -/
theorem restores_two :
    Restores (run [.addRule 1 { priority := 20, action := .deny }, .addRule 2 { priority := 10 }]) := by
  refine (restores_iff (uniqueDeletes_of_not_mem (by simp))).mpr ⟨?_, ?_⟩
  · decide
  · unfold PrioritiesFit
    decide

/-- A rule for one port: the port is a wildcard after the restart. -/
theorem port_wildcard_lost :
    UniqueDeletes [.addRule 1 { wildcardTpDst := false, tpDst := 80 }] ∧
      ¬ Restores (run [.addRule 1 { wildcardTpDst := false, tpDst := 80 }]) := by
  have hunique : UniqueDeletes [.addRule 1 { wildcardTpDst := false, tpDst := 80 }] :=
    uniqueDeletes_of_not_mem (by simp)
  refine ⟨hunique, fun hrestores => ?_⟩
  have hflags := (wildcards_of_restores hunique hrestores _ List.mem_cons_self).2
  exact absurd hflags (by decide)

end StateFirewall

end Sdpa.Controller.Firewall
