import Mathlib.Data.List.Nodup
import Mathlib.Data.List.Perm.Basic
import TapeMachines.Turing.Automaton
/-!
# Finding a rule

A rule's key is its state and the symbol it reads. `find?_eq_some_iff` says what `Program.find?` finds
where no key is repeated, without mention of the order; so the order of such rules does not matter
(`find?_of_perm`).
-/

namespace TapeMachines.Turing

/-- What a rule is looked up by. -/
def Rule.key (r : Rule) : String × Char := (r.state, r.read)

namespace Program

variable {p : Program} {s : String} {c : Char} {r : Rule}

/-- The test that `find?` puts to each rule. -/
theorem matches_iff_key_eq : (r.state = s && r.read = c : Bool) = true ↔ r.key = (s, c) := by
  simp [Rule.key]

theorem mem_of_find? (h : p.find? s c = some r) : r ∈ p.rules := List.mem_of_find?_eq_some h

theorem key_of_find? (h : p.find? s c = some r) : r.key = (s, c) := by
  have hm := List.find?_some h
  exact matches_iff_key_eq.1 hm

/-- A step follows a rule for the state and the symbol. -/
theorem order_eq_go {t text write move} (h : p.order s c = .go text write move t) :
    ∃ r ∈ p.rules, r.key = (s, c) ∧ r.next = t := by
  unfold order at h
  split at h
  · rename_i r hf
    cases h
    exact ⟨r, mem_of_find? hf, key_of_find? hf, rfl⟩
  · cases h

/-! ## Where no key is repeated -/

/-- No two rules have the same state and symbol. -/
def DistinctKeys (p : Program) : Prop := (p.rules.map Rule.key).Nodup

instance (p : Program) : Decidable p.DistinctKeys := inferInstanceAs (Decidable (p.rules.map Rule.key).Nodup)

theorem find?_eq_some_iff (hp : p.DistinctKeys) : p.find? s c = some r ↔ r ∈ p.rules ∧ r.key = (s, c) := by
  constructor
  · intro h
    exact ⟨mem_of_find? h, key_of_find? h⟩
  · rintro ⟨hr, hk⟩
    have hsome : (p.find? s c).isSome = true := List.find?_isSome.2 ⟨r, hr, matches_iff_key_eq.2 hk⟩
    obtain ⟨r', hr'⟩ := Option.isSome_iff_exists.1 hsome
    have hk' : r'.key = r.key := (key_of_find? hr').trans hk.symm
    rw [hr', List.inj_on_of_nodup_map hp (mem_of_find? hr') hr hk']

/-- The order of rules without a repeated key does not matter. -/
theorem find?_of_perm {q : Program} (hp : p.DistinctKeys) (h : q.rules.Perm p.rules) (s : String) (c : Char) :
    q.find? s c = p.find? s c := by
  have hq : q.DistinctKeys := (h.map Rule.key).nodup_iff.2 hp
  ext r
  rw [find?_eq_some_iff hq, find?_eq_some_iff hp, h.mem_iff]

end Program

end TapeMachines.Turing
