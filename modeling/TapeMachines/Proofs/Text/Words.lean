import Mathlib.Data.List.Basic
import TapeMachines.Text.Lines
/-!
# The words of a line

`Runs line ws` says that `ws` are the maximal runs of characters other than space and tab, in the
order in which they stand in the line: the line is put together from gaps and words, and a word ends
only at a gap or at the end of the line. Every line has exactly one such list, and `words` finds it
(`runs_iff`). Words joined by single spaces are found again (`words_joined`).
-/

namespace TapeMachines.Text

inductive Runs : List Char → List (List Char) → Prop where
  | nil : Runs [] []
  | gap {c line ws} : isGap c = true → Runs line ws → Runs (c :: line) ws
  | word {w line ws} : w ≠ [] → (∀ c ∈ w, isGap c = false) →
      (∀ c, line.head? = some c → isGap c = true) → Runs line ws → Runs (w ++ line) (w :: ws)

/-! ## The words that are found -/

theorem words_append_gap {c : Char} (hc : isGap c = true) (xs ys : List Char) :
    words (xs ++ c :: ys) = words xs ++ words ys := by
  rw [words, List.splitOnP_append_cons xs ys hc, List.filter_append]
  rfl

@[simp] theorem words_nil : words [] = [] := rfl

theorem words_gap_cons {c : Char} (hc : isGap c = true) (line : List Char) : words (c :: line) = words line :=
  words_append_gap hc [] line

/-- However long a gap is, it only keeps words apart. -/
theorem words_append_gaps {gap : List Char} (hne : gap ≠ []) (hgap : ∀ c ∈ gap, isGap c = true) (xs ys : List Char) :
    words (xs ++ gap ++ ys) = words xs ++ words ys := by
  have hskip : ∀ gap, (∀ c ∈ gap, isGap c = true) → words (gap ++ ys) = words ys := by
    intro gap h
    induction gap with
    | nil => rfl
    | cons c gap ih =>
      rw [List.forall_mem_cons] at h
      rw [List.cons_append, words_gap_cons h.1, ih h.2]
  obtain ⟨c, gap, rfl⟩ := List.exists_cons_of_ne_nil hne
  rw [List.forall_mem_cons] at hgap
  rw [List.append_assoc, List.cons_append, words_append_gap hgap.1, hskip gap hgap.2]

theorem words_of_gapless {w : List Char} (hne : w ≠ []) (h : ∀ c ∈ w, isGap c = false) : words w = [w] := by
  rw [words, List.splitOnP_eq_singleton h]
  simp [hne]

theorem Runs.words_eq {line : List Char} {ws : List (List Char)} (h : Runs line ws) : words line = ws := by
  induction h with
  | nil => rfl
  | gap hc _ ih => rw [words_gap_cons hc, ih]
  | @word w line ws hne hw hend _ ih =>
    cases line with
    | nil => rw [List.append_nil, words_of_gapless hne hw, ← ih, words_nil]
    | cons c line =>
      have hc := hend c rfl
      rw [words_gap_cons hc] at ih
      rw [words_append_gap hc, words_of_gapless hne hw, ih]
      rfl

/-- A character in front of a line begins a gap or a word, or is put to the first word. -/
theorem exists_runs (line : List Char) : ∃ ws, Runs line ws := by
  induction line with
  | nil => exact ⟨[], .nil⟩
  | cons c line ih =>
    obtain ⟨ws, h⟩ := ih
    by_cases hc : isGap c = true
    · exact ⟨ws, .gap hc h⟩
    · have hc : isGap c = false := by simpa using hc
      cases h with
      | nil => exact ⟨_, .word (w := [c]) (by simp) (by simpa using hc) (by simp) .nil⟩
      | gap hd h => exact ⟨_, .word (w := [c]) (by simp) (by simpa using hc) (by simpa using hd) (.gap hd h)⟩
      | @word w rest ws _ hw hend h =>
        have hcw : ∀ d ∈ c :: w, isGap d = false := by
          intro d hd
          rcases List.mem_cons.1 hd with rfl | hd
          · exact hc
          · exact hw d hd
        exact ⟨_, .word (w := c :: w) (by simp) hcw hend h⟩

theorem runs_iff {line : List Char} {ws : List (List Char)} : Runs line ws ↔ words line = ws := by
  constructor
  · exact Runs.words_eq
  · rintro rfl
    obtain ⟨ws, h⟩ := exists_runs line
    rwa [h.words_eq]

theorem runs_words (line : List Char) : Runs line (words line) := runs_iff.2 rfl

/-! ## What words consist of -/

theorem not_isGap_of_not_isSpace {c : Char} (h : isSpace c = false) : isGap c = false := by
  by_contra hgap
  rw [isSpace_of_isGap (by simpa using hgap)] at h
  cases h

theorem Runs.of_mem {line : List Char} {ws : List (List Char)} (h : Runs line ws) :
    ∀ w ∈ ws, w ≠ [] ∧ (∀ c ∈ w, isGap c = false) ∧ ∀ c ∈ w, c ∈ line := by
  induction h with
  | nil => simp
  | gap _ _ ih =>
    intro w hw
    obtain ⟨hne, hgap, hmem⟩ := ih w hw
    exact ⟨hne, hgap, fun c hc => List.mem_cons_of_mem _ (hmem c hc)⟩
  | word hne hw _ _ ih =>
    intro v hv
    rcases List.mem_cons.1 hv with rfl | hv
    · exact ⟨hne, hw, fun c hc => List.mem_append_left _ hc⟩
    · obtain ⟨hne, hgap, hmem⟩ := ih v hv
      exact ⟨hne, hgap, fun c hc => List.mem_append_right _ (hmem c hc)⟩

theorem ne_nil_of_mem_words {line w : List Char} (h : w ∈ words line) : w ≠ [] :=
  ((runs_words line).of_mem w h).1

theorem not_isGap_of_mem_words {line w : List Char} (h : w ∈ words line) : ∀ c ∈ w, isGap c = false :=
  ((runs_words line).of_mem w h).2.1

theorem mem_of_mem_words {line w : List Char} (h : w ∈ words line) {c : Char} (hc : c ∈ w) : c ∈ line :=
  ((runs_words line).of_mem w h).2.2 c hc

/-- The words hold every character of the line but the gaps. -/
theorem flatten_words (line : List Char) : (words line).flatten = line.filter fun c => !isGap c := by
  have h := runs_words line
  generalize words line = ws at h
  induction h with
  | nil => rfl
  | gap hc _ ih => rw [List.filter_cons_of_neg (by simp [hc]), ih]
  | @word w line ws _ hw _ _ ih =>
    have hkeep : w.filter (fun c => !isGap c) = w := List.filter_eq_self.2 fun c hc => by simp [hw c hc]
    rw [List.flatten_cons, List.filter_append, hkeep, ih]

/-- A line that does not begin with a gap begins with its first word. -/
theorem head?_of_words_eq_cons {line w : List Char} {ws : List (List Char)} {c : Char}
    (h : words line = w :: ws) (hc : line.head? = some c) (hgap : isGap c = false) : w.head? = some c := by
  cases runs_iff.2 h with
  | gap hd _ =>
    obtain rfl := Option.some.inj hc
    rw [hd] at hgap
    cases hgap
  | word hne _ _ _ =>
    obtain ⟨d, w, rfl⟩ := List.exists_cons_of_ne_nil hne
    exact hc

/-! ## Words put together -/

/-- Words with single spaces between them. -/
def joined (ws : List (List Char)) : List Char := [' '].intercalate ws

theorem joined_cons {ws : List (List Char)} (h : ws ≠ []) (w : List Char) :
    joined (w :: ws) = w ++ ' ' :: joined ws := by
  rw [joined, List.intercalate_cons_of_ne_nil h, List.append_assoc]
  rfl

theorem words_joined {ws : List (List Char)} (h : ∀ w ∈ ws, w ≠ [] ∧ ∀ c ∈ w, isGap c = false) :
    words (joined ws) = ws := by
  induction ws with
  | nil => rfl
  | cons w ws ih =>
    obtain ⟨hne, hw⟩ := h w List.mem_cons_self
    have hrest := ih fun v hv => h v (List.mem_cons_of_mem _ hv)
    by_cases hws : ws = []
    · rw [hws, joined, List.intercalate_singleton, words_of_gapless hne hw]
    · rw [joined_cons hws, words_append_gap (by decide), words_of_gapless hne hw, hrest]
      rfl

/-- Joined words begin with a word. -/
theorem not_isGap_of_head?_joined {ws : List (List Char)} (h : ∀ w ∈ ws, w ≠ [] ∧ ∀ c ∈ w, isGap c = false)
    {c : Char} (hc : (joined ws).head? = some c) : isGap c = false := by
  cases ws with
  | nil => cases hc
  | cons w ws =>
    obtain ⟨hne, hw⟩ := h w List.mem_cons_self
    obtain ⟨d, w, rfl⟩ := List.exists_cons_of_ne_nil hne
    rw [joined, List.intercalate_cons_cons_left] at hc
    obtain rfl := Option.some.inj hc
    exact hw d List.mem_cons_self

/-- The words of a line end where the line ends, unless that is in a gap. -/
theorem getLast?_joined_words {line : List Char} {c : Char} (hc : line.getLast? = some c) (hgap : isGap c = false) :
    (joined (words line)).getLast? = some c := by
  have h := runs_words line
  generalize words line = ws at h
  induction h with
  | nil => cases hc
  | @gap d line ws hd _ ih =>
    have hline : line ≠ [] := by
      rintro rfl
      rw [← Option.some.inj hc, List.getLast_singleton, hd] at hgap
      cases hgap
    rw [List.getLast?_cons_of_ne_nil hline] at hc
    exact ih hc
  | @word w line ws _ _ _ hrest ih =>
    cases line with
    | nil =>
      obtain rfl : [] = ws := hrest.words_eq
      rwa [joined, List.intercalate_singleton, ← List.append_nil w]
    | cons d line =>
      rw [List.getLast?_append_cons] at hc
      have hlast := ih hc
      have hws : ws ≠ [] := by
        rintro rfl
        cases hlast
      rw [joined_cons hws, List.getLast?_append_cons, List.getLast?_cons, hlast]
      rfl

end TapeMachines.Text
