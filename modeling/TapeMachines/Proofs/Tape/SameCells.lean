import TapeMachines.Proofs.Tape.Stretch
/-!
# The same cells, visited or not

Two tapes have the `SameCells` if they agree at every position and in the head. How much of them has been
visited may differ: no operation looks at that, and the contents do not depend on it. Only the rendering does,
by the blanks at its two ends (`SameCells.render_eq_padded`).
-/

namespace TapeMachines.Tape

structure SameCells (t t' : Tape) : Prop where
  head : t.head = t'.head
  get : ∀ p, t.get p = t'.get p

namespace SameCells

variable {t t' : Tape}

theorem refl (t : Tape) : t.SameCells t := ⟨rfl, fun _ => rfl⟩

theorem symm (h : t.SameCells t') : t'.SameCells t := ⟨h.head.symm, fun p => (h.get p).symm⟩

/-- Far to the right both tapes hold nothing but blanks, so the blank is the same. -/
theorem blank (h : t.SameCells t') : t.blank = t'.blank := by
  have hfar := h.get (max t.rightmost t'.rightmost + 1)
  rwa [get_of_gt_rightmost (by omega), get_of_gt_rightmost (by omega)] at hfar

theorem symbol (h : t.SameCells t') : t.symbol = t'.symbol := by
  rw [← get_head, ← get_head, h.head, h.get]

/-! ## Operations -/

theorem perform (h : t.SameCells t') (write : Option Char) (d : Direction) :
    (t.perform write d).SameCells (t'.perform write d) := by
  refine ⟨?_, ?_⟩
  · rw [head_perform, head_perform, h.head]
  · intro p
    cases write with
    | none => rw [get_perform_none, get_perform_none, h.get]
    | some c => rw [get_perform_some, get_perform_some, h.head, funext h.get]

theorem rewind (h : t.SameCells t') : t.rewind.SameCells t'.rewind := by
  refine ⟨?_, ?_⟩
  · rw [head_rewind, head_rewind]
  · intro p
    rw [get_rewind, get_rewind, h.get]

/-- Blanks at the end of an input are blank already. -/
theorem ofList_append (blank : Char) (input : List Char) (k : Nat) :
    (ofList blank input).SameCells (ofList blank (input ++ List.replicate k blank)) := by
  refine ⟨?_, ?_⟩
  · rw [head_ofList, head_ofList]
  · intro p
    rw [get_ofList, get_ofList]
    split
    · rw [List.getElem?_append, List.getElem?_replicate]
      split
      · rfl
      · next hp =>
        -- Behind the input there is nothing in the one seed and blanks, or nothing, in the other.
        rw [List.getElem?_eq_none (by omega)]
        split <;> rfl
    · rfl

/-! ## Texts -/

theorem ends (h : t.SameCells t') {first last : Int} (he : Ends t.blank t.get first last) :
    Ends t'.blank t'.get first last := by
  rwa [h.blank, funext h.get] at he

theorem contents (h : t.SameCells t') : t.contents = t'.contents ∧ t.contentsOrigin = t'.contentsOrigin := by
  rcases t.blank_or_contents with hblank | ⟨first, last, he⟩
  · have hblank' : ∀ p, t'.get p = t'.blank := by
      intro p
      rw [← h.get, ← h.blank, hblank]
    rw [contents_of_blank hblank, contents_of_blank hblank', contentsOrigin_of_blank hblank,
      contentsOrigin_of_blank hblank', h.head]
    exact ⟨rfl, rfl⟩
  · rw [contents_eq_stretch he, contents_eq_stretch (h.ends he), contentsOrigin_eq he, contentsOrigin_eq (h.ends he),
      funext h.get]
    exact ⟨rfl, rfl⟩

/-- What a tape renders beside the positions that both have visited is blank. -/
theorem render_eq_padded (h : t.SameCells t') :
    t.render =
      List.replicate (max t.leftmost t'.leftmost - t.leftmost).toNat t.blank ++
        stretch t.get (max t.leftmost t'.leftmost) (min t.rightmost t'.rightmost) ++
        List.replicate (t.rightmost - min t.rightmost t'.rightmost).toNat t.blank := by
  have hleft := t.leftmost_le_head
  have hleft' := t'.leftmost_le_head
  have hright := t.head_le_rightmost
  have hright' := t'.head_le_rightmost
  have hhead := h.head
  rw [render_eq_stretch]
  apply stretch_eq_padded
  · omega
  · omega
  · -- Both have visited the head.
    omega
  · intro p hp hp'
    rw [h.get, h.blank, get_of_lt_leftmost (by omega)]
  · intro p hp hp'
    rw [h.get, h.blank, get_of_gt_rightmost (by omega)]

end SameCells

end TapeMachines.Tape
