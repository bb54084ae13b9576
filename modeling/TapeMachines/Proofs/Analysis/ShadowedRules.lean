import TapeMachines.Proofs.Analysis.Turing
import TapeMachines.Proofs.Exchange
import TapeMachines.Proofs.Turing.Lookup
/-!
# Shadowed rules

A rule is shadowed if an earlier one has its key: `Repeats`. The report of shadowed rules, made in one
pass that remembers the keys it has seen, names exactly these (`filterMap_shadowed?`). The rules that
are left are the ones a look-up can find (`find?_eq_some_iff_unshadowed`), and none of them shares a
key with another, so that their order is free. Main statement: `shadowed_rules_dead`.
-/

namespace TapeMachines

/-- The number, state and symbol of a rule that a problem reports as shadowed. -/
def Analysis.Problem.shadowed? : Problem → Option (Nat × String × Char)
  | .shadowedRule n state symbol => some (n, state, symbol)
  | _ => none

namespace Turing.Program

open Analysis

variable {p : Program}

/-- A rule before place `i` has the key of the rule at `i`. -/
def Repeats (rules : List Rule) (i : Nat) : Prop :=
  ∃ j, j < i ∧ rules[j]?.map Rule.key = rules[i]?.map Rule.key

instance (rules : List Rule) (i : Nat) : Decidable (Repeats rules i) :=
  inferInstanceAs (Decidable (∃ j, j < i ∧ rules[j]?.map Rule.key = rules[i]?.map Rule.key))

/-! ## The pass over the rules -/

/-- In the middle of the rules, the rule at hand repeats a key if it is among those before it. -/
theorem repeats_length_iff {before after : List Rule} {r : Rule} :
    Repeats (before ++ r :: after) before.length ↔ r.key ∈ before.map Rule.key := by
  have hhere : (before ++ r :: after)[before.length]? = some r := by simp
  rw [Repeats, hhere, List.mem_iff_getElem?]
  constructor
  · rintro ⟨j, hj, hk⟩
    rw [List.getElem?_append_left hj] at hk
    exact ⟨j, by rw [List.getElem?_map, hk]; rfl⟩
  · rintro ⟨j, hk⟩
    have hj : j < before.length := by
      have hlt := (List.getElem?_eq_some_iff.1 hk).1
      rwa [List.length_map] at hlt
    rw [List.getElem?_map] at hk
    exact ⟨j, hj, by rw [List.getElem?_append_left hj, hk]; rfl⟩

/-- What the pass reports from a place on, if `earlier` holds the keys of the rules before it. -/
theorem filterMap_shadowedFrom (before after : List Rule) {earlier : List (String × Char)}
    (h : ∀ k, k ∈ earlier ↔ k ∈ before.map Rule.key) :
    (shadowedFrom (before.length + 1) earlier after).filterMap Problem.shadowed? =
      ((after.zipIdx before.length).filter fun ri => Repeats (before ++ after) ri.2).map
        fun ri => (ri.2 + 1, ri.1.state, ri.1.read) := by
  induction after generalizing before earlier with
  | nil => rfl
  | cons r after ih =>
    have hlength : (before ++ [r]).length = before.length + 1 := by simp
    have hsplit : before ++ r :: after = (before ++ [r]) ++ after := by simp
    have hseen : (r.state, r.read) ∈ earlier ↔ Repeats (before ++ r :: after) before.length := by
      rw [repeats_length_iff]
      exact h r.key
    have hkeys : ∀ k, k ∈ (before ++ [r]).map Rule.key ↔ k ∈ earlier ∨ k = (r.state, r.read) := by
      intro k
      rw [List.map_append, List.mem_append, ← h, List.map_singleton, List.mem_singleton]
      rfl
    rw [shadowedFrom, List.zipIdx_cons, List.filter_cons]
    -- The rule at hand goes over to `before`; its key is remembered, if it was not before.
    by_cases hr : (r.state, r.read) ∈ earlier
    · have hnext : ∀ k, k ∈ earlier ↔ k ∈ (before ++ [r]).map Rule.key := by
        intro k
        rw [hkeys, or_iff_left_of_imp]
        rintro rfl
        exact hr
      have hrest := ih (before ++ [r]) hnext
      rw [hlength, ← hsplit] at hrest
      rw [if_pos hr, if_pos (decide_eq_true (hseen.1 hr)), List.map_cons, ← hrest]
      rfl
    · have hnext : ∀ k, k ∈ (r.state, r.read) :: earlier ↔ k ∈ (before ++ [r]).map Rule.key := by
        intro k
        rw [hkeys, List.mem_cons, or_comm]
      have hnot : ¬decide (Repeats (before ++ r :: after) before.length) = true := by
        rw [decide_eq_true_eq, ← hseen]
        exact hr
      have hrest := ih (before ++ [r]) hnext
      rw [hlength, ← hsplit] at hrest
      rw [if_neg hr, if_neg hnot, hrest]

theorem filterMap_shadowed? (p : Program) :
    p.problems.filterMap Problem.shadowed? =
      (p.rules.zipIdx.filter fun ri => Repeats p.rules ri.2).map
        fun ri => (ri.2 + 1, ri.1.state, ri.1.read) := by
  rw [filterMap_problems_of_rules (fun _ _ => rfl) (fun _ => rfl) (fun _ => rfl)]
  exact filterMap_shadowedFrom [] p.rules fun _ => Iff.rfl

/-! ## The rules that are left -/

/-- The numbers of the rules that are reported as shadowed. -/
def shadowedNumbers (p : Program) : List Nat := (p.problems.filterMap Problem.shadowed?).map (·.1)

/-- The program without the rules that are reported as shadowed. -/
def unshadowed (p : Program) : Program :=
  ⟨(p.rules.zipIdx.filter fun ri => ri.2 + 1 ∉ p.shadowedNumbers).map Prod.fst, p.ignored⟩

theorem mem_shadowedNumbers_iff {i : Nat} (hi : i < p.rules.length) :
    i + 1 ∈ p.shadowedNumbers ↔ Repeats p.rules i := by
  rw [shadowedNumbers, filterMap_shadowed?, List.map_map, List.mem_map]
  constructor
  · rintro ⟨⟨r, j⟩, hmem, hj⟩
    obtain rfl : j = i := Nat.succ.inj hj
    exact of_decide_eq_true (List.mem_filter.1 hmem).2
  · intro h
    refine ⟨(p.rules[i], i), List.mem_filter.2 ⟨?_, decide_eq_true h⟩, rfl⟩
    exact List.mem_zipIdx_iff_getElem?.2 (List.getElem?_eq_getElem hi)

theorem rules_unshadowed (p : Program) :
    p.unshadowed.rules = (p.rules.zipIdx.filter fun ri => ¬Repeats p.rules ri.2).map Prod.fst := by
  refine congrArg (List.map Prod.fst) (List.filter_congr ?_)
  intro ri hmem
  have hi : ri.2 < p.rules.length := (List.getElem?_eq_some_iff.1 (List.mem_zipIdx_iff_getElem?.1 hmem)).1
  rw [decide_eq_decide, mem_shadowedNumbers_iff hi]

theorem mem_unshadowed_iff {r : Rule} :
    r ∈ p.unshadowed.rules ↔ ∃ i, p.rules[i]? = some r ∧ ¬Repeats p.rules i := by
  rw [rules_unshadowed, List.mem_map]
  constructor
  · rintro ⟨⟨r, i⟩, hmem, rfl⟩
    obtain ⟨hz, hn⟩ := List.mem_filter.1 hmem
    exact ⟨i, List.mem_zipIdx_iff_getElem?.1 hz, of_decide_eq_true hn⟩
  · rintro ⟨i, hi, hn⟩
    exact ⟨(r, i), List.mem_filter.2 ⟨List.mem_zipIdx_iff_getElem?.2 hi, decide_eq_true hn⟩, rfl⟩

/-- Of two rules that are left the later one repeats no key, so not the earlier one's. -/
theorem distinctKeys_unshadowed (p : Program) : p.unshadowed.DistinctKeys := by
  have hplaces : p.rules.zipIdx.Pairwise fun a b => a.2 < b.2 := by
    rw [← List.pairwise_map, List.zipIdx_map_snd]
    exact List.pairwise_lt_range'
  rw [DistinctKeys, rules_unshadowed, List.map_map, List.Nodup, List.pairwise_map]
  refine (hplaces.filter _).imp_of_mem ?_
  intro a b ha hb hlt hk
  obtain ⟨hza, -⟩ := List.mem_filter.1 ha
  obtain ⟨hzb, hnb⟩ := List.mem_filter.1 hb
  rw [List.mem_zipIdx_iff_getElem?] at hza hzb
  refine of_decide_eq_true hnb ⟨a.2, hlt, ?_⟩
  rw [hza, hzb]
  exact congrArg some hk

/-- The first rule of a key repeats none, and no other rule of the key is left. -/
theorem find?_eq_some_iff_unshadowed {s : String} {c : Char} {r : Rule} :
    p.find? s c = some r ↔ r ∈ p.unshadowed.rules ∧ r.key = (s, c) := by
  rw [mem_unshadowed_iff, find?, List.find?_eq_some_iff_getElem, matches_iff_key_eq, and_comm]
  refine and_congr_left ?_
  -- Both sides speak of a place before which no rule has the key.
  intro hk
  constructor
  · rintro ⟨i, hi, hr, hfirst⟩
    refine ⟨i, by rw [List.getElem?_eq_getElem hi, hr], ?_⟩
    rintro ⟨j, hj, hkj⟩
    have hjlen : j < p.rules.length := Nat.lt_trans hj hi
    rw [List.getElem?_eq_getElem hi, List.getElem?_eq_getElem hjlen, hr] at hkj
    have hmatch : p.rules[j].key = (s, c) := (Option.some.inj hkj).trans hk
    rw [← matches_iff_key_eq] at hmatch
    have hno := hfirst j hj
    rw [hmatch] at hno
    cases hno
  · rintro ⟨i, hir, hno⟩
    obtain ⟨hi, hr⟩ := List.getElem?_eq_some_iff.1 hir
    refine ⟨i, hi, hr, ?_⟩
    intro j hj
    have hjlen : j < p.rules.length := Nat.lt_trans hj hi
    rw [Bool.not_eq_true', ← Bool.not_eq_true, matches_iff_key_eq]
    intro hkj
    refine hno ⟨j, hj, ?_⟩
    rw [hir, List.getElem?_eq_getElem hjlen]
    exact congrArg some (hkj.trans hk.symm)

theorem find?_unshadowed (s : String) (c : Char) : p.unshadowed.find? s c = p.find? s c := by
  ext r
  rw [find?_eq_some_iff p.distinctKeys_unshadowed, find?_eq_some_iff_unshadowed]

/-! ## Main theorem -/

/-- The rules reported as shadowed are those at the places where a key is repeated, each once, in
order and with its number, state and symbol. The rules that are left have distinct keys; in whatever
order they are put, the same rule is found for every state and symbol, and no calls tell the program
from the whole one. -/
theorem shadowed_rules_dead (p : Program) :
    p.problems.filterMap Problem.shadowed? =
      (p.rules.zipIdx.filter fun ri => Repeats p.rules ri.2).map
        (fun ri => (ri.2 + 1, ri.1.state, ri.1.read)) ∧
    p.unshadowed.DistinctKeys ∧
    ∀ q : Program, q.rules.Perm p.unshadowed.rules →
      (∀ s c, q.find? s c = p.find? s c) ∧ p.automaton.Alike q.automaton := by
  refine ⟨filterMap_shadowed? p, distinctKeys_unshadowed p, ?_⟩
  intro q hperm
  have hfind : ∀ s c, q.find? s c = p.find? s c := by
    intro s c
    rw [find?_of_perm p.distinctKeys_unshadowed hperm, find?_unshadowed]
  have horder : q.order = p.order := by
    funext s c
    rw [order, order, hfind]
  have hunit : q.automaton = p.automaton := by
    rw [automaton, automaton, horder]
  refine ⟨hfind, ?_⟩
  rw [hunit]
  exact Automaton.Alike.refl _

/-- The third rule has the key of the first; the other two may be swapped. -/
def thirdShadowed : Program :=
  ⟨[⟨"0", '1', "a", '_', .right⟩, ⟨"a", '1', "0", '1', .left⟩, ⟨"0", '1', "b", '1', .stay⟩], []⟩

theorem shadowed_rules_dead_swapped :
    let q : Program := ⟨[⟨"a", '1', "0", '1', .left⟩, ⟨"0", '1', "a", '_', .right⟩], []⟩
    thirdShadowed.shadowedNumbers = [3] ∧ q.rules.Perm thirdShadowed.unshadowed.rules ∧
      (∀ s c, q.find? s c = thirdShadowed.find? s c) ∧ thirdShadowed.automaton.Alike q.automaton := by
  intro q
  have hnumbers : thirdShadowed.shadowedNumbers = [3] := by
    rw [shadowedNumbers, filterMap_shadowed?]
    decide
  have hleft : thirdShadowed.unshadowed.rules =
      [⟨"0", '1', "a", '_', .right⟩, ⟨"a", '1', "0", '1', .left⟩] := by
    rw [rules_unshadowed]
    decide
  have hperm : q.rules.Perm thirdShadowed.unshadowed.rules := by
    rw [hleft]
    exact List.Perm.swap _ _ _
  exact ⟨hnumbers, hperm, (shadowed_rules_dead thirdShadowed).2.2 q hperm⟩

end Turing.Program

end TapeMachines
