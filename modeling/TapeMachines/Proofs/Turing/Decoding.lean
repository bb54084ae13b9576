import TapeMachines.Proofs.Turing.RoundTrip
/-!
# What a Turing listing gives

A line that is neither white space nor a comment gives one entry of the program: the rule that its words spell
(`Rule.SpelledBy`), or the line itself with its position where they spell none (`Entry.ReadFrom`). The rules and
the ignored lines are these entries told apart, so that no line is lost or read twice. Main statement:
`listing_partitioned`.
-/

namespace TapeMachines

/-- The words for a direction are one character long. -/
def Direction.spellings : Direction → List Char
  | .left => ['<', 'L']
  | .right => ['>', 'R']
  | .stay => ['-', 'S', 'N']

theorem Direction.ofWord?_eq_some_iff {word : List Char} {d : Direction} :
    Direction.ofWord? word = some d ↔ ∃ c ∈ d.spellings, word = [c] := by
  constructor
  · intro h
    unfold Direction.ofWord? at h
    split at h <;> cases h <;> simp [spellings]
  · rintro ⟨c, hc, rfl⟩
    cases d <;> simp only [spellings, List.mem_cons, List.not_mem_nil, or_false] at hc <;>
      rcases hc with rfl | rfl | rfl <;> rfl

namespace Turing

open Text

/-- The words `ws` are a way to write the rule. -/
def Rule.SpelledBy (r : Rule) (ws : List (List Char)) : Prop :=
  ∃ c ∈ r.move.spellings, ws = [r.state.toList, [r.read], r.next.toList, [r.write], [c]]

/-- Something other than a number sign begins what the line says. -/
def GivesEntry (line : List Char) : Prop :=
  ∃ text c, IsTrim isSpace line text ∧ text.head? = some c ∧ c ≠ '#'

inductive Entry where
  | rule (r : Rule)
  | ignored (n : Nat) (line : String)
  deriving DecidableEq, Repr

/-- What line `n` of a listing gives, if it gives anything. -/
inductive Entry.ReadFrom (n : Nat) (line : List Char) : Entry → Prop where
  | rule {text ws r} : IsTrim isSpace line text → Runs text ws → r.SpelledBy ws → ReadFrom n line (.rule r)
  | ignored {text ws} : IsTrim isSpace line text → Runs text ws → (∀ r : Rule, ¬r.SpelledBy ws) →
      ReadFrom n line (.ignored n (String.ofList text))

def Entry.rule? : Entry → Option Rule
  | .rule r => some r
  | .ignored _ _ => none

def Entry.ignored? : Entry → Option (Nat × String)
  | .rule _ => none
  | .ignored n line => some (n, line)

/-! ## Words and rules -/

variable {ws : List (List Char)} {r : Rule} {line : List Char}

theorem ofWords?_eq_some_iff : Rule.ofWords? ws = some r ↔ r.SpelledBy ws := by
  constructor
  · intro h
    obtain ⟨direction, rfl⟩ := ofWords?_eq_some h
    obtain ⟨move, hmove, hr⟩ := Option.map_eq_some_iff.1 h
    obtain rfl : move = r.move := congrArg Rule.move hr
    obtain ⟨c, hc, rfl⟩ := Direction.ofWord?_eq_some_iff.1 hmove
    exact ⟨c, hc, rfl⟩
  · rintro ⟨c, hc, rfl⟩
    rw [Rule.ofWords?, Direction.ofWord?_eq_some_iff.2 ⟨c, hc, rfl⟩]
    simp

theorem ofWords?_eq_none_iff : Rule.ofWords? ws = none ↔ ∀ r : Rule, ¬r.SpelledBy ws := by
  simp only [← ofWords?_eq_some_iff, Option.eq_none_iff_forall_ne_some, ne_eq]

theorem givesEntry_iff : GivesEntry line ↔ trim line ≠ [] ∧ (trim line).head? ≠ some '#' := by
  simp only [GivesEntry, isTrim_iff, exists_and_left, exists_eq_left']
  rw [← trim]
  cases (trim line) with
  | nil => simp
  | cons c text => simp

instance (line : List Char) : Decidable (GivesEntry line) := decidable_of_iff _ givesEntry_iff.symm

/-! ## Entries -/

/-- The entry of a trimmed line. -/
def entryOf? (numbered : Nat × List Char) : Option Entry :=
  match Line.of numbered.2 with
  | .comment => none
  | .rule r => some (.rule r)
  | .ignored => some (.ignored numbered.1 (String.ofList numbered.2))

theorem ruleOfLine?_eq (l : Nat × List Char) : ruleOfLine? l = (entryOf? l).bind Entry.rule? := by
  obtain ⟨n, text⟩ := l
  rw [ruleOfLine?, entryOf?]
  cases Line.of text <;> rfl

theorem ignoredLine?_eq (l : Nat × List Char) : ignoredLine? l = (entryOf? l).bind Entry.ignored? := by
  obtain ⟨n, text⟩ := l
  rw [ignoredLine?, entryOf?]
  cases Line.of text <;> rfl

theorem entryOf?_eq_none_iff {l : Nat × List Char} : entryOf? l = none ↔ l.2.head? = some '#' := by
  rw [entryOf?, Line.of]
  by_cases h : l.2.head? = some '#'
  · simp [h]
  · cases hr : Rule.ofWords? (words l.2) <;> simp [h]

/-- What a line gives is read from the words of its trimmed text. -/
theorem readFrom_of_entryOf? {n : Nat} {e : Entry} (h : entryOf? (n, trim line) = some e) : e.ReadFrom n line := by
  have htrim : IsTrim isSpace line (trim line) := isTrim_trimBy isSpace line
  have hruns := runs_words (trim line)
  have hcomment : ¬(trim line).head? = some '#' := by
    rw [← entryOf?_eq_none_iff (l := (n, trim line)), h]
    simp
  rw [entryOf?, Line.of, if_neg hcomment] at h
  cases hr : Rule.ofWords? (words (trim line)) with
  | none =>
    rw [hr] at h
    cases h
    exact .ignored htrim hruns (ofWords?_eq_none_iff.1 hr)
  | some r =>
    rw [hr] at h
    cases h
    exact .rule htrim hruns (ofWords?_eq_some_iff.1 hr)

theorem numberedLine_bind_eq_none_iff {n : Nat} :
    (numberedLine (line, n)).bind entryOf? = none ↔ ¬GivesEntry line := by
  rw [givesEntry_iff, numberedLine]
  by_cases hblank : trim line = []
  · simp [hblank]
  · simp [hblank, entryOf?_eq_none_iff]

theorem readFrom_of_numberedLine {n : Nat} {e : Entry} (h : (numberedLine (line, n)).bind entryOf? = some e) :
    e.ReadFrom n line := by
  obtain ⟨l, hl, he⟩ := Option.bind_eq_some_iff.1 h
  simp only [numberedLine, Option.ite_none_left_eq_some, Option.some.injEq] at hl
  obtain ⟨-, rfl⟩ := hl
  exact readFrom_of_entryOf? he

/-! ## Listings -/

/-- The entries of a listing, in order. -/
def entries (ls : List (List Char)) : List Entry := (numbered ls).filterMap entryOf?

theorem ofNumbered_eq (ls : List (List Char)) :
    Program.ofNumbered (numbered ls) = ⟨(entries ls).filterMap Entry.rule?, (entries ls).filterMap Entry.ignored?⟩ := by
  rw [Program.ofNumbered, entries, List.filterMap_filterMap, List.filterMap_filterMap]
  rw [funext ruleOfLine?_eq, funext ignoredLine?_eq]

theorem forall₂_entries (ls : List String) :
    List.Forall₂ (fun l e => e.ReadFrom l.2 l.1.toList) ((ls.zipIdx 1).filter fun l => GivesEntry l.1.toList)
      (entries (ls.map String.toList)) := by
  rw [entries, numbered, List.zipIdx_map, List.filterMap_map, List.filterMap_filterMap]
  refine forall₂_filter_filterMap ?_ ?_ _
  · intro l
    rw [decide_eq_false_iff_not]
    exact numberedLine_bind_eq_none_iff
  · intro l e he
    exact readFrom_of_numberedLine he

theorem ascending_ignored (ls : List (List Char)) :
    ((Program.ofNumbered (numbered ls)).ignored.map (·.1)).Pairwise (· < ·) := by
  have hpositions := positions_numbered ls
  rw [List.pairwise_map] at hpositions ⊢
  rw [Program.ofNumbered, List.pairwise_filterMap]
  refine hpositions.imp fun {a b} hlt x hx y hy => ?_
  -- An ignored line keeps its position.
  simp only [ignoredLine?, Option.ite_none_right_eq_some, Option.some.injEq] at hx hy
  rw [← hx.2, ← hy.2]
  exact hlt

theorem ofLines_append (as bs : List String) :
    Program.ofLines (as ++ bs) =
      ⟨(Program.ofLines as).rules ++ (Program.ofLines bs).rules,
        (Program.ofLines as).ignored ++ (Program.ofLines bs).ignored.map fun l => (l.1 + as.length, l.2)⟩ := by
  simp only [Program.ofLines, Program.ofNumbered, List.map_append, numbered_append, List.filterMap_append,
    List.length_map, List.filterMap_map, List.map_filterMap]
  have hignored : ∀ l : Nat × List Char, ignoredLine? (l.1 + as.length, l.2) =
      (ignoredLine? l).map fun l => (l.1 + as.length, l.2) := by
    intro l
    simp only [ignoredLine?]
    split <;> rfl
  -- A line is the same rule at whatever position it stands.
  congr 2
  exact congrArg (List.filterMap · _) (funext hignored)

/-! ## Main theorem -/

/-- The rules and the ignored lines of `p` are what the lines of the listing give: one entry from each line that is
neither white space nor a comment, in order. -/
structure Program.Partitions (p : Program) (ls : List String) : Prop where
  entries : ∃ es : List Entry, p.rules = es.filterMap Entry.rule? ∧ p.ignored = es.filterMap Entry.ignored? ∧
    List.Forall₂ (fun l e => e.ReadFrom l.2 l.1.toList) ((ls.zipIdx 1).filter fun l => GivesEntry l.1.toList) es
  ascending : (p.ignored.map (·.1)).Pairwise (· < ·)

/-- Every listing is partitioned into rules and ignored lines, and what two listings give, one behind the other, is
what each of them gives, with the positions in the second moved on by the length of the first. -/
theorem listing_partitioned (ls : List String) :
    (Program.ofLines ls).Partitions ls ∧
    ∀ more, Program.ofLines (ls ++ more) =
      ⟨(Program.ofLines ls).rules ++ (Program.ofLines more).rules,
        (Program.ofLines ls).ignored ++ (Program.ofLines more).ignored.map fun l => (l.1 + ls.length, l.2)⟩ := by
  have heq := ofNumbered_eq (ls.map String.toList)
  refine ⟨⟨⟨entries (ls.map String.toList), ?_, ?_, forall₂_entries ls⟩, ascending_ignored _⟩, ofLines_append ls⟩
  · exact congrArg Program.rules heq
  · exact congrArg Program.ignored heq

example : Program.ofLines ["#0 1 1 0 R", "0 # \u00a0 1\t-", "", "0 # 1 1 -\u00a0", "0 1 1 0 Right"] =
    ⟨[⟨"0", '#', "\u00a0", '1', .stay⟩, ⟨"0", '#', "1", '1', .stay⟩], [(5, "0 1 1 0 Right")]⟩ := by decide +kernel

end Turing

end TapeMachines
