import TapeMachines.Proofs.Text.Lines
import TapeMachines.Proofs.Text.Trim
import TapeMachines.Proofs.Text.Words
import TapeMachines.Turing.Listing
/-!
# Listing rules again

`Rule.Listable` says which rules a line of a listing can hold. Exactly these are read again from the line
that `Rule.text` writes, and every rule that is read from a listing is one of them, however its direction
was spelled. So the rules of a program, each on its own line, are read as the same rules. Main statement:
`rules_round_trip`.
-/

namespace TapeMachines.Turing

open Text

/-- The state begins a line and ends at a gap, and so do the other words; a symbol is not a gap. -/
structure Rule.Listable (r : Rule) : Prop where
  state_ne_empty : r.state ≠ ""
  state_gapless : ∀ c ∈ r.state.toList, isGap c = false
  state_head : ∀ c, r.state.toList.head? = some c → isSpace c = false ∧ c ≠ '#'
  next_ne_empty : r.next ≠ ""
  next_gapless : ∀ c ∈ r.next.toList, isGap c = false
  read_not_gap : isGap r.read = false
  write_not_gap : isGap r.write = false

/-! ## The line of a rule -/

/-- The words of the line that a rule is written as. -/
def Rule.words (r : Rule) : List (List Char) :=
  [r.state.toList, [r.read], r.next.toList, [r.write], [r.move.letter]]

variable {r : Rule} {line : List Char}

theorem toList_text (r : Rule) : r.text.toList = joined r.words := by
  simp [Rule.text, Rule.words, joined, Char.toString, List.intercalate_cons_cons]

theorem isSpace_letter (d : Direction) : isSpace d.letter = false := by
  cases d <;> rfl

theorem getLast?_text (r : Rule) : r.text.toList.getLast? = some r.move.letter := by
  have hletter : r.move.letter.toString.toList = [r.move.letter] := String.toList_singleton _
  rw [Rule.text, String.toList_append, hletter, List.getLast?_append]
  rfl

theorem text_ne_nil (r : Rule) : r.text.toList ≠ [] := by
  intro hnil
  have hlast := getLast?_text r
  rw [hnil] at hlast
  cases hlast

theorem Rule.Listable.words_text (h : r.Listable) : Text.words r.text.toList = r.words := by
  rw [toList_text, words_joined]
  have hletter : isGap r.move.letter = false := not_isGap_of_not_isSpace (isSpace_letter r.move)
  have hstate : r.state.toList ≠ [] := by simpa using h.state_ne_empty
  have hnext : r.next.toList ≠ [] := by simpa using h.next_ne_empty
  simp only [Rule.words, List.forall_mem_cons, List.not_mem_nil, false_implies, implies_true, and_true, ne_eq,
    List.cons_ne_nil, not_false_eq_true, true_and]
  exact ⟨⟨hstate, h.state_gapless⟩, h.read_not_gap, ⟨hnext, h.next_gapless⟩, h.write_not_gap, hletter⟩

theorem Rule.Listable.head?_text (h : r.Listable) : ∃ c, r.text.toList.head? = some c ∧ isSpace c = false ∧ c ≠ '#' := by
  have hstate : r.state.toList ≠ [] := by simpa using h.state_ne_empty
  obtain ⟨c, rest, hc⟩ := List.exists_cons_of_ne_nil hstate
  refine ⟨c, ?_, h.state_head c (by rw [hc]; rfl)⟩
  simp [Rule.text, hc]

theorem Rule.Listable.trim_text (h : r.Listable) : trim r.text.toList = r.text.toList := by
  obtain ⟨c, hc, hspace, -⟩ := h.head?_text
  refine trimBy_eq_self ?_ ?_
  · rw [hc]
    rintro _ ⟨⟩
    exact hspace
  · rw [getLast?_text]
    rintro _ ⟨⟩
    exact isSpace_letter r.move

theorem ofWords?_words (r : Rule) : Rule.ofWords? r.words = some r := by
  simp [Rule.ofWords?, Rule.words]

theorem Rule.Listable.of_text (h : r.Listable) : Line.of r.text.toList = .rule r := by
  obtain ⟨c, hc, -, hcomment⟩ := h.head?_text
  rw [Line.of, hc, if_neg (by simpa using hcomment), h.words_text, ofWords?_words]

/-! ## The rules that are read -/

theorem ofWords?_eq_some {ws : List (List Char)} (h : Rule.ofWords? ws = some r) :
    ∃ direction, ws = [r.state.toList, [r.read], r.next.toList, [r.write], direction] := by
  unfold Rule.ofWords? at h
  split at h
  · obtain ⟨move, -, rfl⟩ := Option.map_eq_some_iff.1 h
    simp
  · cases h

theorem of_eq_rule (h : Line.of line = .rule r) :
    line.head? ≠ some '#' ∧ ∃ direction, words line = [r.state.toList, [r.read], r.next.toList, [r.write], direction] := by
  unfold Line.of at h
  split at h
  · cases h
  · rename_i hcomment
    split at h
    · rename_i hr
      cases h
      exact ⟨hcomment, ofWords?_eq_some hr⟩
    · cases h

/-- A rule is read from the words of its line, and the first of these begins the line. -/
theorem listable_of_line (hhead : ∀ c, line.head? = some c → isSpace c = false) (h : Line.of line = .rule r) :
    r.Listable := by
  obtain ⟨hcomment, direction, hws⟩ := of_eq_rule h
  have hwords : ∀ w ∈ [r.state.toList, [r.read], r.next.toList, [r.write], direction],
      w ≠ [] ∧ ∀ c ∈ w, isGap c = false := by
    rw [← hws]
    exact fun w hw => ⟨ne_nil_of_mem_words hw, not_isGap_of_mem_words hw⟩
  simp only [List.forall_mem_cons] at hwords
  obtain ⟨⟨hs, hsg⟩, ⟨-, hread, -⟩, ⟨hn, hng⟩, ⟨-, hwrite, -⟩, -⟩ := hwords
  have hline : ∃ c, line.head? = some c := by
    cases line with
    | nil => simp at hws
    | cons c line => exact ⟨c, rfl⟩
  obtain ⟨c, hc⟩ := hline
  have hspace := hhead c hc
  have hstate := head?_of_words_eq_cons hws hc (not_isGap_of_not_isSpace hspace)
  exact
    { state_ne_empty := by simpa using hs
      state_gapless := hsg
      state_head := by
        rw [hstate]
        rintro _ ⟨⟩
        exact ⟨hspace, fun heq => hcomment (by rw [hc, heq])⟩
      next_ne_empty := by simpa using hn
      next_gapless := hng
      read_not_gap := hread
      write_not_gap := hwrite }

theorem exists_line_of_mem_ofNumbered {ls : List (List Char)} (h : r ∈ (Program.ofNumbered (numbered ls)).rules) :
    ∃ line ∈ ls, Line.of (trim line) = .rule r := by
  obtain ⟨⟨n, text⟩, hmem, hr⟩ := List.mem_filterMap.1 h
  obtain ⟨⟨line, k⟩, hline, htext⟩ := List.mem_filterMap.1 hmem
  simp only [numberedLine, Option.ite_none_left_eq_some, Option.some.injEq, Prod.mk.injEq] at htext
  obtain ⟨-, -, rfl⟩ := htext
  refine ⟨line, List.fst_mem_of_mem_zipIdx hline, ?_⟩
  cases hof : Line.of (trim line) with
  | rule s =>
    simp only [ruleOfLine?, hof, Line.rule?, Option.some.injEq] at hr
    rw [hr]
  | comment => simp [ruleOfLine?, hof, Line.rule?] at hr
  | ignored => simp [ruleOfLine?, hof, Line.rule?] at hr

theorem listable_of_mem_ofNumbered {ls : List (List Char)} (h : r ∈ (Program.ofNumbered (numbered ls)).rules) :
    r.Listable := by
  obtain ⟨line, -, hr⟩ := exists_line_of_mem_ofNumbered h
  exact listable_of_line (isTrim_trimBy isSpace line).head hr

/-! ## Rules on lines of their own -/

/-- A line that holds a rule, with its position. -/
theorem numberedLine_text (h : r.Listable) (n : Nat) : numberedLine (r.text.toList, n) = some (n, r.text.toList) := by
  simp only [numberedLine, h.trim_text, List.isEmpty_iff, if_neg (text_ne_nil r)]

theorem ruleOfLine?_text (h : r.Listable) (n : Nat) : ruleOfLine? (n, r.text.toList) = some r := by
  simp only [ruleOfLine?, h.of_text, Line.rule?]

theorem ignoredLine?_text (h : r.Listable) (n : Nat) : ignoredLine? (n, r.text.toList) = none := by
  simp [ignoredLine?, h.of_text]

theorem ofNumbered_texts (rules : List Rule) (h : ∀ r ∈ rules, r.Listable) :
    Program.ofNumbered (numbered (rules.map fun r => r.text.toList)) = ⟨rules, []⟩ := by
  have hlistable : ∀ r n, (r, n) ∈ rules.zipIdx 1 → r.Listable :=
    fun r n hmem => h r (List.fst_mem_of_mem_zipIdx hmem)
  have hnumbered : numbered (rules.map fun r => r.text.toList) =
      (rules.zipIdx 1).map fun (r, n) => (n, r.text.toList) := by
    rw [numbered, List.zipIdx_map, List.filterMap_map, ← List.filterMap_eq_map]
    refine List.filterMap_congr ?_
    rintro ⟨r, n⟩ hmem
    simp only [Function.comp_apply, Prod.map_apply, id_eq, numberedLine_text (hlistable r n hmem)]
  have hrules : (rules.zipIdx 1).filterMap (fun (r, n) => ruleOfLine? (n, r.text.toList)) = rules := by
    have hsome : ∀ rn ∈ rules.zipIdx 1, (fun (r, n) => ruleOfLine? (n, r.text.toList)) rn = (some ∘ Prod.fst) rn := by
      rintro ⟨r, n⟩ hmem
      exact ruleOfLine?_text (hlistable r n hmem) n
    rw [List.filterMap_congr hsome, List.filterMap_eq_map, List.zipIdx_map_fst]
  have hignored : (rules.zipIdx 1).filterMap (fun (r, n) => ignoredLine? (n, r.text.toList)) = [] := by
    rw [List.filterMap_eq_nil_iff]
    rintro ⟨r, n⟩ hmem
    exact ignoredLine?_text (hlistable r n hmem) n
  rw [hnumbered, Program.ofNumbered, List.filterMap_map, List.filterMap_map]
  exact congrArg₂ Program.mk hrules hignored

/-- The rules of a text hold no line feed, as its lines hold none. -/
theorem newline_not_mem_text {text : String} (h : r ∈ (Program.ofText text).rules) : '\n' ∉ r.text.toList := by
  obtain ⟨line, hline, hr⟩ := exists_line_of_mem_ofNumbered h
  obtain ⟨-, direction, hws⟩ := of_eq_rule hr
  have hnone : '\n' ∉ trim line :=
    fun hmem => newline_not_mem_of_mem_lines hline ((trimBy_sublist isSpace line).subset hmem)
  have hwords : ∀ w ∈ [r.state.toList, [r.read], r.next.toList, [r.write], direction], '\n' ∉ w := by
    rw [← hws]
    exact fun w hw hmem => hnone (mem_of_mem_words hw hmem)
  simp only [List.forall_mem_cons, List.mem_singleton] at hwords
  obtain ⟨hstate, hread, hnext, hwrite, -⟩ := hwords
  have hletter : '\n' ≠ r.move.letter := by
    cases r.move <;> decide
  simp [Rule.text, Char.toString, hstate, hread, hnext, hwrite, hletter]

theorem lines_texts (text : String) :
    lines ("\n".intercalate ((Program.ofText text).rules.map Rule.text)).toList =
      (Program.ofText text).rules.map fun r => r.text.toList := by
  rw [String.toList_intercalate, List.map_map]
  refine lines_intercalate ?_ ?_ ?_
  · simp only [List.forall_mem_map]
    exact fun r hr => newline_not_mem_text hr
  · simp only [List.forall_mem_map]
    exact fun r _ => text_ne_nil r
  · simp only [List.forall_mem_map]
    intro r _
    rw [Function.comp_apply, getLast?_text]
    cases r.move <;> decide

/-- A rule is read from the line that it is written as, with nothing ignored, exactly if a line can hold
it; every rule of a listing is such a rule; and so the rules of a text, written on lines of their own, are
read as they were. -/
theorem rules_round_trip :
    (∀ r : Rule, Program.ofLines [r.text] = ⟨[r], []⟩ ↔ r.Listable) ∧
    (∀ ls : List String, ∀ r ∈ (Program.ofLines ls).rules, r.Listable) ∧
    ∀ text : String, Program.ofText ("\n".intercalate ((Program.ofText text).rules.map Rule.text)) =
      ⟨(Program.ofText text).rules, []⟩ := by
  refine ⟨?_, ?_, ?_⟩
  · intro r
    constructor
    · intro h
      have hmem : r ∈ (Program.ofLines [r.text]).rules := by
        rw [h]
        exact List.mem_singleton_self r
      exact listable_of_mem_ofNumbered hmem
    · intro h
      exact ofNumbered_texts [r] (by simpa using h)
  · exact fun ls r hr => listable_of_mem_ofNumbered hr
  · intro text
    rw [Program.ofText, lines_texts]
    exact ofNumbered_texts _ fun r hr => listable_of_mem_ofNumbered hr

/-- A number sign inside a state and white space that is no gap as a symbol. -/
def oddRule : Rule := ⟨"a#", '\u00a0', "#b", '#', .stay⟩

theorem rules_round_trip_odd_rule :
    oddRule ∈ (Program.ofLines ["# a", "\u00a0a# \u00a0\t#b # N ", "0 1"]).rules ∧ oddRule.Listable ∧
      Program.ofLines [oddRule.text] = ⟨[oddRule], []⟩ := by
  have hmem : oddRule ∈ (Program.ofLines ["# a", "\u00a0a# \u00a0\t#b # N ", "0 1"]).rules := by decide +kernel
  obtain ⟨hiff, hlistable, -⟩ := rules_round_trip
  have hrule := hlistable _ _ hmem
  exact ⟨hmem, hrule, (hiff oddRule).2 hrule⟩

end TapeMachines.Turing
