import TapeMachines.Post.Listing
import TapeMachines.Proofs.Text.Trim
import TapeMachines.Proofs.Text.Words
/-!
# Labels and words of a Post line

A label is one or more digits and a point. `LineWords` says which words a line has: those of the
trimmed line without its label, if it has one. `lineWords` finds them (`lineWords_eq_some_iff`), and
they are all that a listing keeps of a line (`instructions_ofLines`), so that two listings with the same words in
every place are the same program (`ofLines_congr`).
-/

namespace TapeMachines.Post

open Text

/-! ## Labels -/

def IsLabel (label : List Char) : Prop :=
  ∃ digits, digits ≠ [] ∧ (∀ c ∈ digits, c.isDigit = true) ∧ label = digits ++ ['.']

def Unlabelled (line : List Char) : Prop := ∀ label, IsLabel label → ¬label <+: line

/-- What a line says beside its label. A label is taken off once. -/
def IsBody (line body : List Char) : Prop :=
  (∃ label, IsLabel label ∧ line = label ++ body) ∨ (Unlabelled line ∧ body = line)

variable {label line body before : List Char} {ws : List (List Char)}

theorem IsLabel.ne_nil (h : IsLabel label) : label ≠ [] := by
  obtain ⟨digits, -, -, rfl⟩ := h
  simp

theorem IsLabel.head (h : IsLabel label) : ∀ c, label.head? = some c → c.isDigit = true := by
  obtain ⟨digits, hne, hd, rfl⟩ := h
  obtain ⟨d, digits, rfl⟩ := List.exists_cons_of_ne_nil hne
  rintro c ⟨⟩
  exact hd _ List.mem_cons_self

theorem IsLabel.getLast? (h : IsLabel label) : label.getLast? = some '.' := by
  obtain ⟨digits, -, -, rfl⟩ := h
  simp

theorem isSpace_of_isDigit {c : Char} (h : c.isDigit = true) : isSpace c = false := by
  rw [Char.isDigit_iff_toNat] at h
  obtain ⟨hlow, hhigh⟩ : 48 ≤ c.toNat ∧ c.toNat ≤ 57 := h
  simp only [isSpace, Bool.or_eq_false_iff, Bool.and_eq_false_imp, decide_eq_true_eq, decide_eq_false_iff_not,
    beq_eq_false_iff_ne]
  omega

theorem IsLabel.not_isGap (h : IsLabel label) : ∀ c ∈ label, isGap c = false := by
  obtain ⟨digits, -, hd, rfl⟩ := h
  intro c hc
  rcases List.mem_append.1 hc with hc | hc
  · exact not_isGap_of_not_isSpace (isSpace_of_isDigit (hd c hc))
  · obtain rfl := List.mem_singleton.1 hc
    decide

theorem dropLabel_append (h : IsLabel label) (rest : List Char) : dropLabel (label ++ rest) = rest := by
  obtain ⟨digits, hne, hd, rfl⟩ := h
  have hpoint : ('.' :: rest).takeWhile Char.isDigit = [] := rfl
  rw [dropLabel, List.append_assoc, List.takeWhile_append_of_pos hd, List.dropWhile_append_of_pos hd,
    List.singleton_append, hpoint, List.append_nil]
  obtain ⟨d, digits, rfl⟩ := List.exists_cons_of_ne_nil hne
  rfl

theorem dropLabel_of_unlabelled (h : Unlabelled line) : dropLabel line = line := by
  unfold dropLabel
  split
  · rename_i d digits rest htake hdrop
    have hline : (d :: digits) ++ '.' :: rest = line := by
      rw [← htake, ← hdrop, List.takeWhile_append_dropWhile]
    have hlabel : IsLabel ((d :: digits) ++ ['.']) := by
      refine ⟨_, List.cons_ne_nil d digits, ?_, rfl⟩
      rw [← htake]
      exact List.all_eq_true.1 List.all_takeWhile
    exact absurd ⟨rest, by rw [← hline, List.append_assoc]; rfl⟩ (h _ hlabel)
  · rfl

/-- No label reaches over a gap. -/
theorem dropLabel_append_gap {c : Char} (hc : isGap c = true) (xs ys : List Char) :
    dropLabel (xs ++ c :: ys) = dropLabel xs ++ c :: ys := by
  by_cases hu : Unlabelled xs
  · have hlong : Unlabelled (xs ++ c :: ys) := by
      intro label hl hp
      rcases List.prefix_or_prefix_of_prefix hp (List.prefix_append xs (c :: ys)) with hshort | ⟨tail, rfl⟩
      · exact hu label hl hshort
      · rw [List.prefix_append_right_inj] at hp
        cases tail with
        | nil => exact hu _ hl (by simp)
        | cons d tail =>
          obtain rfl : d = c := (List.cons_prefix_cons.1 hp).1
          have hgap := hl.not_isGap d (List.mem_append_right _ List.mem_cons_self)
          rw [hc] at hgap
          cases hgap
    rw [dropLabel_of_unlabelled hlong, dropLabel_of_unlabelled hu]
  · simp only [Unlabelled, not_forall, not_not] at hu
    obtain ⟨label, hl, rest, rfl⟩ := hu
    rw [List.append_assoc, dropLabel_append hl, dropLabel_append hl]

theorem isBody_iff : IsBody line body ↔ dropLabel line = body := by
  constructor
  · rintro (⟨label, hl, rfl⟩ | ⟨hu, rfl⟩)
    · exact dropLabel_append hl body
    · exact dropLabel_of_unlabelled hu
  · rintro rfl
    by_cases h : Unlabelled line
    · exact .inr ⟨h, dropLabel_of_unlabelled h⟩
    · simp only [Unlabelled, not_forall, not_not] at h
      obtain ⟨label, hl, rest, rfl⟩ := h
      exact .inl ⟨label, hl, by rw [dropLabel_append hl]⟩

theorem unlabelled_iff : Unlabelled line ↔ dropLabel line = line := by
  constructor
  · exact dropLabel_of_unlabelled
  · rintro h label hl ⟨rest, rfl⟩
    rw [dropLabel_append hl, List.self_eq_append_left] at h
    exact hl.ne_nil h

instance (line : List Char) : Decidable (Unlabelled line) := decidable_of_iff _ unlabelled_iff.symm

/-! ## Words of a line -/

/-- `ws` are the words of a line that is not all white space. -/
def LineWords (line : List Char) (ws : List (List Char)) : Prop :=
  ∃ text body, IsTrim isSpace line text ∧ text ≠ [] ∧ IsBody text body ∧ Runs body ws

/-- The words of a line; nothing for a line of white space. -/
def lineWords (line : List Char) : Option (List (List Char)) :=
  let text := trim line
  if text.isEmpty then none else some (words (dropLabel text))

theorem lineWords_eq_some_iff : lineWords line = some ws ↔ LineWords line ws := by
  simp only [LineWords, isTrim_iff, isBody_iff, runs_iff, lineWords, List.isEmpty_iff, Option.ite_none_left_eq_some,
    Option.some.injEq]
  constructor
  · rintro ⟨hne, hws⟩
    exact ⟨trim line, _, rfl, hne, rfl, hws⟩
  · rintro ⟨text, body, rfl, hne, rfl, rfl⟩
    exact ⟨hne, rfl⟩

theorem lineWords_eq_none_iff : lineWords line = none ↔ ∀ c ∈ line, isSpace c = true := by
  rw [← trimBy_eq_nil_iff]
  simp [lineWords, trim]

theorem lineWords_of_mem (h : lineWords line = some ws) : ∀ w ∈ ws, w ≠ [] ∧ ∀ c ∈ w, isGap c = false := by
  obtain ⟨_, _, _, _, _, hruns⟩ := lineWords_eq_some_iff.1 h
  exact fun w hw => ⟨(hruns.of_mem w hw).1, (hruns.of_mem w hw).2.1⟩

/-- A label counts for nothing, and neither does the white space around a line. -/
theorem lineWords_label (hb : ∀ c ∈ before, isSpace c = true) (hl : IsLabel label) (rest : List Char) :
    lineWords (before ++ (label ++ rest)) = some (words (rest.rdropWhile isSpace)) := by
  have htrim : trim (before ++ (label ++ rest)) = label ++ rest.rdropWhile isSpace := by
    rw [trim, trimBy_append_left hb]
    refine trimBy_append_right ?_ ⟨'.', hl.getLast?, by decide⟩ rest
    exact fun c hc => isSpace_of_isDigit (hl.head c hc)
  simp [lineWords, htrim, dropLabel_append hl, hl.ne_nil]

theorem lineWords_unlabelled (hb : ∀ c ∈ before, isSpace c = true)
    (hhead : ∃ c, line.head? = some c ∧ isSpace c = false) (hu : Unlabelled line) :
    lineWords (before ++ line) = some (words (line.rdropWhile isSpace)) := by
  obtain ⟨c, hc, hspace⟩ := hhead
  have htrim : trim (before ++ line) = line.rdropWhile isSpace := by
    rw [trim, trimBy_append_left hb]
    exact trimBy_eq_rdropWhile (by simpa [hc] using hspace)
  have hbody : Unlabelled (line.rdropWhile isSpace) := fun label hl hp =>
    hu label hl (hp.trans (List.rdropWhile_prefix _ _))
  have hne : line.rdropWhile isSpace ≠ [] := by
    rw [Ne, List.rdropWhile_eq_nil_iff]
    intro hall
    rw [hall c (List.mem_of_mem_head? hc)] at hspace
    cases hspace
  simp [lineWords, htrim, dropLabel_of_unlabelled hbody, hne]

/-! ## Lines of a listing -/

/-- The instruction with the words `ws`, as line `n`. -/
def Instruction.ofWords (n : Nat) (ws : List (List Char)) : Instruction :=
  ⟨n, String.ofList (joined ws), .ofWords ws⟩

theorem numberedLine_map (n : Nat) (line : List Char) :
    (numberedLine (line, n)).map (fun (n, text) => Instruction.ofLine n text) =
      (lineWords line).map (Instruction.ofWords n) := by
  simp only [numberedLine, lineWords, List.isEmpty_iff]
  split <;> rfl

theorem instructions_ofLines (ls : List String) :
    (Program.ofLines ls).instructions =
      ((ls.map fun l => lineWords l.toList).zipIdx 1).filterMap fun (ws, n) => ws.map (Instruction.ofWords n) := by
  rw [Program.ofLines, numbered, List.map_filterMap, List.zipIdx_map, List.zipIdx_map, List.filterMap_map,
    List.filterMap_map]
  refine List.filterMap_congr ?_
  rintro ⟨line, n⟩ -
  exact numberedLine_map n line.toList

theorem ofLines_congr {ls ls' : List String}
    (h : (ls.map fun l => lineWords l.toList) = ls'.map fun l => lineWords l.toList) :
    Program.ofLines ls = Program.ofLines ls' := by
  have hi : (Program.ofLines ls).instructions = (Program.ofLines ls').instructions := by
    rw [instructions_ofLines, instructions_ofLines, h]
  exact congrArg Program.mk hi

/-- An instruction is made of the words of the line that it numbers. -/
theorem Program.mem_ofLines_iff {ls : List String} {i : Instruction} :
    i ∈ (Program.ofLines ls).instructions ↔
      ∃ n line ws, ls[n]? = some line ∧ lineWords line.toList = some ws ∧ i = .ofWords (n + 1) ws := by
  rw [instructions_ofLines, List.zipIdx_map, List.filterMap_map, List.mem_filterMap]
  constructor
  · rintro ⟨⟨line, n⟩, hmem, hi⟩
    obtain ⟨ws, hws, rfl⟩ := Option.map_eq_some_iff.1 hi
    obtain ⟨k, rfl⟩ := Nat.exists_eq_add_of_le (List.le_snd_of_mem_zipIdx hmem)
    rw [List.mem_zipIdx_iff_le_and_getElem?_sub] at hmem
    exact ⟨k, line, ws, by simpa using hmem.2, hws, by rw [Nat.add_comm]; rfl⟩
  · rintro ⟨n, line, ws, hline, hws, rfl⟩
    refine ⟨(line, n + 1), ?_, ?_⟩
    · rw [List.mem_zipIdx_iff_le_and_getElem?_sub]
      exact ⟨by omega, by simpa using hline⟩
    · exact Option.map_eq_some_iff.2 ⟨ws, hws, rfl⟩

end TapeMachines.Post
