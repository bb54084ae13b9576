import Mathlib.Data.List.Basic
import Mathlib.Data.List.Forall2
import TapeMachines.Text.Lines
/-!
# Lines put together

No line of a text holds a line feed (`newline_not_mem_of_mem_lines`). Lines that hold none, are not empty
and do not end in a carriage return are found again when they are joined by line feeds
(`lines_intercalate`).
-/

namespace TapeMachines.Text

theorem newline_not_mem_of_mem_splitOn {text piece : List Char} (h : piece ∈ text.splitOn '\n') : '\n' ∉ piece := by
  induction text generalizing piece with
  | nil =>
    obtain rfl : piece = [] := by simpa using h
    exact List.not_mem_nil
  | cons c text ih =>
    rw [List.splitOn_cons_eq_if_modifyHead] at h
    obtain ⟨first, rest, hsplit⟩ := List.exists_cons_of_ne_nil (List.splitOn_ne_nil '\n' text)
    split at h
    · rcases List.mem_cons.1 h with rfl | h
      · exact List.not_mem_nil
      · exact ih h
    · rename_i hc
      rw [hsplit, List.modifyHead_cons] at h
      rcases List.mem_cons.1 h with rfl | h
      · have hfirst : '\n' ∉ first := ih (by rw [hsplit]; exact List.mem_cons_self)
        rw [List.mem_cons, not_or]
        exact ⟨fun heq => hc (beq_iff_eq.2 heq.symm), hfirst⟩
      · exact ih (by rw [hsplit]; exact List.mem_cons_of_mem _ h)

theorem dropReturn_sublist (line : List Char) : (dropReturn line).Sublist line := by
  unfold dropReturn
  split
  · exact List.dropLast_sublist line
  · exact List.Sublist.refl line

theorem newline_not_mem_of_mem_lines {text line : List Char} (h : line ∈ lines text) : '\n' ∉ line := by
  rcases List.mem_append.1 h with h | h
  · obtain ⟨piece, hp, rfl⟩ := List.mem_map.1 h
    have hpiece := newline_not_mem_of_mem_splitOn ((List.dropLast_sublist _).subset hp)
    exact fun hmem => hpiece ((dropReturn_sublist piece).subset hmem)
  · have hlast := List.mem_of_getLast? (Option.mem_toList.1 (List.mem_filter.1 h).1)
    exact newline_not_mem_of_mem_splitOn hlast

theorem lines_intercalate {ls : List (List Char)} (hline : ∀ l ∈ ls, '\n' ∉ l) (hne : ∀ l ∈ ls, l ≠ [])
    (hreturn : ∀ l ∈ ls, l.getLast? ≠ some '\r') : lines (['\n'].intercalate ls) = ls := by
  cases hls : ls.getLast? with
  | none =>
    obtain rfl := List.getLast?_eq_none_iff.1 hls
    rfl
  | some last =>
    have hnil : ls ≠ [] := by
      rintro rfl
      cases hls
    have hkept : ls.dropLast.map dropReturn = ls.dropLast := by
      have hsame : ∀ l ∈ ls.dropLast, dropReturn l = id l :=
        fun l hl => if_neg (hreturn l ((List.dropLast_sublist _).subset hl))
      rw [List.map_congr_left hsame, List.map_id]
    have hlast : last ≠ [] := hne last (List.mem_of_getLast? hls)
    rw [lines, List.splitOn_intercalate '\n' hline hnil, hkept, hls]
    simp [hlast, List.dropLast_append_getLast? last hls]

/-! ## Lines that say something -/

/-- The positions of the lines that say something go up. -/
theorem positions_numbered (ls : List (List Char)) : ((numbered ls).map (·.1)).Pairwise (· < ·) := by
  rw [List.pairwise_map, numbered, List.pairwise_filterMap]
  have hz : (ls.zipIdx 1).Pairwise fun a b => a.2 < b.2 := by
    rw [← List.pairwise_map, List.zipIdx_map_snd]
    exact List.pairwise_lt_range'
  refine hz.imp fun {a b} h x hx y hy => ?_
  simp only [numberedLine, Option.ite_none_left_eq_some, Option.some.injEq] at hx hy
  rw [← hx.2, ← hy.2]
  exact h

/-- A list with some elements left out, against what is made of the others. -/
theorem forall₂_filter_filterMap {α β : Type} {R : α → β → Prop} {q : α → Bool} {f : α → Option β}
    (hq : ∀ a, f a = none ↔ q a = false) (hR : ∀ a b, f a = some b → R a b) (xs : List α) :
    List.Forall₂ R (xs.filter q) (xs.filterMap f) := by
  induction xs with
  | nil => exact .nil
  | cons a xs ih =>
    cases ha : f a with
    | none => rwa [List.filterMap_cons_none ha, List.filter_cons_of_neg (by simp [(hq a).1 ha])]
    | some b =>
      have hkeep : q a = true := by
        by_contra hno
        rw [(hq a).2 (by simpa using hno)] at ha
        cases ha
      rw [List.filterMap_cons_some ha, List.filter_cons_of_pos hkeep]
      exact .cons (hR a b ha) ih

/-- Lists that are alike element by element, and what is made of alike elements is the same. -/
theorem filterMap_eq_of_forall₂ {α β : Type} {R : α → α → Prop} {f : α → Option β} (hf : ∀ x y, R x y → f x = f y)
    {xs ys : List α} (h : List.Forall₂ R xs ys) : xs.filterMap f = ys.filterMap f := by
  induction h with
  | nil => rfl
  | cons hxy _ ih => rw [List.filterMap_cons, List.filterMap_cons, hf _ _ hxy, ih]

end TapeMachines.Text
