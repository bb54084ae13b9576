import TapeMachines.Proofs.Tape.Stretch
/-!
# Tapes in the middle of a sweep

A head that goes over a tape has the cells it comes from on one side and those it still faces on the other.
`facingRight` and `facingLeft` are such tapes, and a step that goes on leads from one to the next. What stands on
them between blanks is what they show (`shows_facingLeft`).
-/

namespace TapeMachines.Tape

/-- The head is on the first of the cells `right`, or on the blank behind them, with the cells `left` to its left,
nearest first. -/
def facingRight (blank : Char) (left right : List Char) (head : Int) : Tape :=
  ⟨blank, left, right.headD blank, right.tail, head⟩

/-- The head is on the first of the cells `left`, nearest first, or on the blank behind them, with the cells
`right` to its right. -/
def facingLeft (blank : Char) (left right : List Char) (head : Int) : Tape :=
  ⟨blank, left.tail, left.headD blank, right, head⟩

variable {blank : Char} {left right : List Char} {head : Int}

theorem ofList_eq_facingRight (blank : Char) (input : List Char) :
    ofList blank input = facingRight blank [] input 0 := by cases input <;> rfl

theorem perform_facingLeft (c : Char) :
    (facingLeft blank left right head).perform (some c) .left =
      facingLeft blank left.tail (c :: right) (head - 1) := rfl

theorem render_facingRight (h : right ≠ []) : (facingRight blank left right head).render = left.reverse ++ right := by
  obtain ⟨c, rest, rfl⟩ := List.exists_cons_of_ne_nil h
  rfl

/-! ## What such a tape shows -/

section Word

variable {t : Tape} {before word after : List Char}

/-- Between blanks, the contents are the word that stands there. -/
theorem contents_of_word (hrender : t.render = before ++ word ++ after) (hbefore : ∀ c ∈ before, c = t.blank)
    (hafter : ∀ c ∈ after, c = t.blank) (hword : ∀ c ∈ word, c ≠ t.blank) : t.contents = word := by
  refine Text.IsTrim.trimBy_eq ⟨⟨before, after, hrender, ?_, ?_⟩, ?_, ?_⟩
  · simpa using hbefore
  · simpa using hafter
  · intro c hc
    simpa using hword c (List.mem_of_mem_head? hc)
  · intro c hc
    simpa using hword c (List.mem_of_mem_getLast? hc)

theorem shows_word (hrender : t.render = before ++ word ++ after)
    (hbefore : ∀ c ∈ before, c = t.blank) (hafter : ∀ c ∈ after, c = t.blank) (hne : word ≠ [])
    (hword : ∀ c ∈ word, c ≠ t.blank) : t.contents = word ∧ t.contentsOrigin = t.leftmost + before.length := by
  have hcontents := contents_of_word hrender hbefore hafter hword
  refine ⟨hcontents, ?_⟩
  have hblank : ¬t.isBlank = true := by
    intro h
    rw [contents_of_blank (isBlank_iff.1 h)] at hcontents
    exact hne hcontents.symm
  obtain ⟨c, rest, rfl⟩ := List.exists_cons_of_ne_nil hne
  have hc : c ≠ t.blank := hword c List.mem_cons_self
  have hblanks : t.render.takeWhile (· == t.blank) = before := by
    rw [hrender, List.append_assoc, List.takeWhile_append_of_pos (by simpa using hbefore), List.cons_append,
      List.takeWhile_cons_of_neg (by simpa using hc), List.append_nil]
  rw [contentsOrigin, if_neg hblank, hblanks]

end Word

theorem shows_facingLeft {word after : List Char} (hcells : left.reverse ++ right = word ++ after)
    (hafter : ∀ c ∈ after, c = blank) (hne : word ≠ []) (hword : ∀ c ∈ word, c ≠ blank) (head : Int) :
    (facingLeft blank left right head).contents = word ∧
      (facingLeft blank left right head).contentsOrigin = head + 1 - left.length := by
  cases left with
  | nil =>
    -- The blank under the head stands before the word.
    have hrender : (facingLeft blank [] right head).render = [blank] ++ word ++ after := by
      rw [List.append_assoc, ← hcells]
      rfl
    obtain ⟨hcontents, horigin⟩ := shows_word hrender (by simp [facingLeft]) hafter hne hword
    refine ⟨hcontents, horigin.trans ?_⟩
    simp [leftmost, facingLeft]
  | cons c left =>
    have hrender : (facingLeft blank (c :: left) right head).render = [] ++ word ++ after := by
      rw [List.nil_append, ← hcells]
      simp [render, facingLeft]
    obtain ⟨hcontents, horigin⟩ := shows_word hrender (by simp) hafter hne hword
    refine ⟨hcontents, horigin.trans ?_⟩
    simp only [leftmost, facingLeft, List.tail_cons, List.length_cons, List.length_nil]
    omega

end TapeMachines.Tape
