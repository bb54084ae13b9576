import TapeMachines.Program
import TapeMachines.Proofs.Analysis.Post
import TapeMachines.Proofs.Analysis.Turing
import TapeMachines.Proofs.Turing.RoundTrip
/-!
# Messages on one line

The message of a problem is one line, whatever the listing holds: a text from the listing is quoted, and no line
feed is quoted as itself; what is not quoted is a state, which is part of a line. Main statement:
`Program.oneLine_message`.
-/

namespace TapeMachines

/-- No line feed stands in the text. -/
def OneLine (s : String) : Prop := '\n' ∉ s.toList

instance (s : String) : Decidable (OneLine s) := inferInstanceAs (Decidable (¬_))

theorem oneLine_append_iff {s t : String} : OneLine (s ++ t) ↔ OneLine s ∧ OneLine t := by
  simp [OneLine]

theorem oneLine_toString_iff {s : String} : OneLine (toString s) ↔ OneLine s := Iff.rfl

/-! ## Numbers -/

theorem newline_not_mem_toDigits {base : Nat} (hbase : 1 < base) (hletters : base ≤ 16) (n : Nat) :
    '\n' ∉ Nat.toDigits base n := by
  have hdigit : ∀ d < 16, '\n' ≠ Nat.digitChar d := by decide
  induction n using Nat.strongRecOn with
  | ind n ih =>
    by_cases hn : n < base
    · rw [Nat.toDigits_of_lt_base hn, List.mem_singleton]
      exact hdigit n (by omega)
    · have hbelow : n / base < n := Nat.div_lt_self (by omega) hbase
      have hlast : n % base < base := Nat.mod_lt n (by omega)
      rw [Nat.toDigits_of_base_le hbase (Nat.le_of_not_lt hn), List.mem_append, List.mem_singleton, not_or]
      exact ⟨ih _ hbelow, hdigit _ (by omega)⟩

theorem oneLine_natural (n : Nat) : OneLine (toString n) := by
  rw [OneLine, Nat.toString_eq_ofList_toDigits, String.toList_ofList]
  exact newline_not_mem_toDigits (by decide) (by decide) n

/-! ## Quoted texts and lists -/

namespace Text

theorem newline_not_mem_quotedChar {mark : Char} (hmark : mark ≠ '\n') (c : Char) : '\n' ∉ quotedChar mark c := by
  unfold quotedChar
  split_ifs with hquote htab hreturn hnewline hnull hunprintable
  · have hc : '\n' ≠ c := by
      rintro rfl
      simp [hmark.symm] at hquote
    simp [hc]
  · decide
  · decide
  · decide
  · decide
  · have hdigits : '\n' ∉ Nat.toDigits 16 c.toNat := newline_not_mem_toDigits (by decide) (by decide) _
    simp [byNumber, hdigits]
  · rw [List.mem_singleton]
    exact Ne.symm hnewline

theorem oneLine_quoteWith {mark : Char} (hmark : mark ≠ '\n') (cs : List Char) : OneLine (quoteWith mark cs) := by
  simp [OneLine, quoteWith, hmark.symm, newline_not_mem_quotedChar hmark]

theorem oneLine_quote (s : String) : OneLine (quote s) := oneLine_quoteWith (by decide) s.toList

theorem oneLine_quoteChar (c : Char) : OneLine (quoteChar c) := oneLine_quoteWith (by decide) [c]

theorem newline_not_mem_intercalate {separator : List Char} (hseparator : '\n' ∉ separator) {items : List (List Char)}
    (h : ∀ item ∈ items, '\n' ∉ item) : '\n' ∉ separator.intercalate items := by
  induction items with
  | nil => simp
  | cons item items ih =>
    rw [List.forall_mem_cons] at h
    by_cases hitems : items = []
    · subst hitems
      simpa using h.1
    · rw [List.intercalate_cons_of_ne_nil hitems]
      simp [h.1, hseparator, ih h.2]

theorem oneLine_bracketed {items : List String} (h : ∀ item ∈ items, OneLine item) : OneLine (bracketed items) := by
  have hitems : OneLine (", ".intercalate items) := by
    rw [OneLine, String.toList_intercalate]
    refine newline_not_mem_intercalate (by decide) ?_
    rw [List.forall_mem_map]
    exact h
  rw [bracketed, oneLine_append_iff, oneLine_append_iff]
  exact ⟨⟨by decide, hitems⟩, by decide⟩

end Text

/-! ## Problems -/

open Analysis Text

/-- Only a state stands in a message as it is. -/
theorem oneLine_message_of_states {q : Problem}
    (hrule : ∀ n state symbol, q = .shadowedRule n state symbol → OneLine state)
    (hstart : ∀ state, q = .invalidStartState state → OneLine state) : OneLine q.message := by
  have hnumbers (ns : List Nat) : OneLine (bracketed (ns.map toString)) :=
    oneLine_bracketed (List.forall_mem_map.2 fun n _ => oneLine_natural n)
  have htexts (ss : List String) : OneLine (bracketed (ss.map quote)) :=
    oneLine_bracketed (List.forall_mem_map.2 fun s _ => oneLine_quote s)
  unfold Problem.message
  cases q with
  | shadowedRule n state symbol =>
    simp only [oneLine_append_iff, oneLine_toString_iff, oneLine_natural, oneLine_quoteChar,
      hrule n state symbol rfl, and_true]
    decide
  | invalidStartState state =>
    simp only [oneLine_append_iff, oneLine_toString_iff, hstart state rfl, and_true]
    decide
  | undefinedTarget | malformedInstruction | unreachableLines | missingHalt | ignoredLine | unreachableStates =>
    simp only [oneLine_append_iff, oneLine_toString_iff, oneLine_natural, oneLine_quote, hnumbers, htexts, and_true]
    decide

theorem Turing.Program.exists_rule_of_shadowedRule {n m : Nat} {earlier : List (String × Char)} {rules : List Rule}
    {state : String} {symbol : Char} (h : .shadowedRule m state symbol ∈ shadowedFrom n earlier rules) :
    ∃ r ∈ rules, r.state = state := by
  induction rules generalizing n earlier with
  | nil => cases h
  | cons r rules ih =>
    have hrest {n' earlier'} (h : .shadowedRule m state symbol ∈ shadowedFrom n' earlier' rules) :
        ∃ s ∈ r :: rules, s.state = state := by
      obtain ⟨s, hs, heq⟩ := ih h
      exact ⟨s, List.mem_cons_of_mem r hs, heq⟩
    unfold shadowedFrom at h
    split at h
    · rcases List.mem_cons.1 h with heq | h
      · cases heq
        exact ⟨r, List.mem_cons_self, rfl⟩
      · exact hrest h
    · exact hrest h

theorem Turing.oneLine_state {text : String} {r : Rule} (hr : r ∈ (Turing.Program.ofText text).rules) :
    OneLine r.state := by
  have htext := newline_not_mem_text hr
  intro hmem
  simp [Rule.text, hmem] at htext

theorem Post.Program.oneLine_message {p : Post.Program} {q : Problem} (hq : q ∈ p.problems) : OneLine q.message := by
  refine oneLine_message_of_states ?_ ?_
  · rintro n state symbol rfl
    simp [Post.Program.mem_problems_iff, Post.Program.mem_instructionProblems_iff] at hq
  · rintro state rfl
    simp [Post.Program.mem_problems_iff, Post.Program.mem_instructionProblems_iff] at hq

theorem Turing.Program.oneLine_message {text : String} {q : Problem} (hq : q ∈ (Turing.Program.ofText text).problems) :
    OneLine q.message := by
  refine oneLine_message_of_states ?_ ?_
  · rintro n state symbol rfl
    obtain ⟨line, t, -, h⟩ | h | h := mem_problems_iff.1 hq
    · cases h
    · obtain ⟨r, hr, rfl⟩ := exists_rule_of_shadowedRule h
      exact oneLine_state hr
    · -- What is reported of the states is no rule.
      by_cases hstarts : (Turing.Program.ofText text).Starts
      · rw [stateProblems_of_starts hstarts, List.mem_ite_nil_left] at h
        simp at h
      · simp [stateProblems_of_not_starts hstarts] at h
  · rintro state rfl
    obtain ⟨rfl, -⟩ := invalidStartState_mem_problems_iff.1 hq
    decide

/-- Whatever a listing holds, each message about it is one line. -/
theorem Program.oneLine_message {kind : Kind} {text : String} {q : Problem}
    (hq : q ∈ (Program.ofText kind text).problems) : OneLine q.message := by
  cases kind with
  | post => exact Post.Program.oneLine_message hq
  | turing => exact Turing.Program.oneLine_message hq

end TapeMachines
