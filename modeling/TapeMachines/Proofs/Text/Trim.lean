import Mathlib.Data.List.DropRight
import TapeMachines.Text.Trim
/-!
# What trimming leaves

`IsTrim` says what is left of a list without mention of how it is found: the list is the rest with
elements to be trimmed on both sides of it, and the rest neither begins nor ends with one. There is
exactly one such rest, and `trimBy` finds it (`isTrim_iff`).
-/

namespace TapeMachines.Text

variable {α : Type}

structure IsTrim (p : α → Bool) (xs rest : List α) : Prop where
  split : ∃ before after, xs = before ++ rest ++ after ∧ (∀ x ∈ before, p x = true) ∧ ∀ x ∈ after, p x = true
  head : ∀ x, rest.head? = some x → p x = false
  last : ∀ x, rest.getLast? = some x → p x = false

variable {p : α → Bool} {xs rest before : List α} {x : α}

theorem head?_dropWhile (h : (xs.dropWhile p).head? = some x) : p x = false := by
  have hx := List.head?_dropWhile_not p xs
  rwa [h] at hx

theorem getLast?_rdropWhile (h : (xs.rdropWhile p).getLast? = some x) : p x = false := by
  rw [List.rdropWhile, List.getLast?_reverse] at h
  exact head?_dropWhile h

theorem head?_rdropWhile (h : (xs.rdropWhile p).head? = some x) : xs.head? = some x := by
  obtain ⟨dropped, hd⟩ := List.rdropWhile_prefix p xs
  rw [← hd, List.head?_append, h]
  rfl

theorem isTrim_trimBy (p : α → Bool) (xs : List α) : IsTrim p xs (trimBy p xs) where
  split := by
    refine ⟨xs.takeWhile p, (xs.dropWhile p).rtakeWhile p, ?_, ?_, ?_⟩
    · rw [List.append_assoc]
      exact (List.takeWhile_append_dropWhile.symm.trans
        (congrArg (xs.takeWhile p ++ ·) List.rdropWhile_append_rtakeWhile.symm))
    · exact List.all_eq_true.1 List.all_takeWhile
    · exact fun x hx => List.mem_rtakeWhile_imp hx
  head _ hx := head?_dropWhile (head?_rdropWhile hx)
  last _ hx := getLast?_rdropWhile hx

theorem dropWhile_eq_self (h : ∀ x, xs.head? = some x → p x = false) : xs.dropWhile p = xs := by
  cases xs with
  | nil => rfl
  | cons x xs => exact List.dropWhile_cons_of_neg (by simp [h x rfl])

theorem rdropWhile_eq_self (h : ∀ x, xs.getLast? = some x → p x = false) : xs.rdropWhile p = xs := by
  rw [List.rdropWhile, dropWhile_eq_self (by simpa using h), List.reverse_reverse]

/-- A list that begins with an element to keep loses elements at its end only. -/
theorem trimBy_eq_rdropWhile (h : ∀ x, xs.head? = some x → p x = false) : trimBy p xs = xs.rdropWhile p := by
  rw [trimBy, dropWhile_eq_self h]
  rfl

theorem trimBy_eq_self (hhead : ∀ x, xs.head? = some x → p x = false)
    (hlast : ∀ x, xs.getLast? = some x → p x = false) : trimBy p xs = xs := by
  rw [trimBy_eq_rdropWhile hhead, rdropWhile_eq_self hlast]

theorem trimBy_append_left (h : ∀ x ∈ before, p x = true) : trimBy p (before ++ xs) = trimBy p xs := by
  rw [trimBy, List.dropWhile_append_of_pos h]
  rfl

theorem trimBy_eq_nil_iff : trimBy p xs = [] ↔ ∀ x ∈ xs, p x = true := by
  constructor
  · intro h
    obtain ⟨before, after, hx, hb, ha⟩ := (isTrim_trimBy p xs).split
    intro x hmem
    rw [hx, h, List.append_nil, List.mem_append] at hmem
    exact hmem.elim (hb x) (ha x)
  · intro h
    rw [trimBy, List.dropWhile_eq_nil_iff.2 h]
    rfl

theorem trimBy_append_right (hhead : ∀ x, xs.head? = some x → p x = false)
    (hlast : ∃ x, xs.getLast? = some x ∧ p x = false) (ys : List α) :
    trimBy p (xs ++ ys) = xs ++ ys.rdropWhile p := by
  obtain ⟨last, hlast, hp⟩ := hlast
  have hkept : xs.rdropWhile p = xs := rdropWhile_eq_self (by simpa [hlast] using hp)
  have hstart : ∀ x, (xs ++ ys).head? = some x → p x = false := by
    intro x hx
    refine hhead x ?_
    obtain ⟨first, rest, rfl⟩ := List.exists_cons_of_ne_nil (show xs ≠ [] by rintro rfl; cases hlast)
    exact hx
  -- The elements that are dropped end in `ys`, or `ys` is dropped whole and `xs` ends with one to keep.
  rw [trimBy_eq_rdropWhile hstart, List.rdropWhile, List.reverse_append, List.dropWhile_append]
  split
  · rename_i hys
    rw [List.isEmpty_iff, List.dropWhile_eq_nil_iff] at hys
    rw [List.rdropWhile_eq_nil_iff.2 (by simpa using hys), List.append_nil]
    exact hkept
  · rw [List.reverse_append, List.reverse_reverse]
    rfl

theorem IsTrim.trimBy_eq (h : IsTrim p xs rest) : trimBy p xs = rest := by
  obtain ⟨before, after, rfl, hb, ha⟩ := h.split
  rw [List.append_assoc, trimBy_append_left hb]
  cases hrest : rest.getLast? with
  | none =>
    rw [List.getLast?_eq_none_iff.1 hrest, List.nil_append]
    exact trimBy_eq_nil_iff.2 ha
  | some last =>
    rw [trimBy_append_right h.head ⟨last, hrest, h.last last hrest⟩, List.rdropWhile_eq_nil_iff.2 ha,
      List.append_nil]

theorem isTrim_iff : IsTrim p xs rest ↔ trimBy p xs = rest := by
  constructor
  · exact IsTrim.trimBy_eq
  · rintro rfl
    exact isTrim_trimBy p xs

/-- Elements to be trimmed at the end make no difference either. -/
theorem trimBy_append_of_forall {after : List α} (h : ∀ x ∈ after, p x = true) (xs : List α) :
    trimBy p (xs ++ after) = trimBy p xs := by
  obtain ⟨⟨left, right, hsplit, hleft, hright⟩, hhead, hlast⟩ := isTrim_trimBy p xs
  have hpadded : IsTrim p (xs ++ after) (trimBy p xs) := by
    refine ⟨⟨left, right ++ after, ?_, hleft, ?_⟩, hhead, hlast⟩
    · rw [← List.append_assoc, ← hsplit]
    · intro x hx
      rcases List.mem_append.1 hx with hx | hx
      · exact hright x hx
      · exact h x hx
  exact hpadded.trimBy_eq

/-- What stands between two elements to keep is kept, whatever it is. -/
theorem trimBy_append_append {left right : List α} (hleft : ¬∀ x ∈ left, p x = true) (hright : ¬∀ x ∈ right, p x = true)
    (mid : List α) : trimBy p (left ++ mid ++ right) = left.dropWhile p ++ mid ++ right.rdropWhile p := by
  have hfirst : left.dropWhile p ≠ [] := by rwa [Ne, List.dropWhile_eq_nil_iff]
  have hlast : right.rdropWhile p ≠ [] := by rwa [Ne, List.rdropWhile_eq_nil_iff]
  have htrim : IsTrim p (left ++ mid ++ right) (left.dropWhile p ++ mid ++ right.rdropWhile p) := by
    refine ⟨⟨left.takeWhile p, right.rtakeWhile p, ?_, ?_, ?_⟩, ?_, ?_⟩
    · conv_lhs => rw [← List.takeWhile_append_dropWhile (p := p) (l := left),
        ← List.rdropWhile_append_rtakeWhile (p := p) (l := right)]
      simp only [List.append_assoc]
    · exact List.all_eq_true.1 List.all_takeWhile
    · exact fun x hx => List.mem_rtakeWhile_imp hx
    · intro x hx
      rw [List.append_assoc, List.head?_append_of_ne_nil _ hfirst] at hx
      exact head?_dropWhile hx
    · intro x hx
      rw [List.getLast?_append_of_ne_nil _ hlast] at hx
      exact getLast?_rdropWhile hx
  exact htrim.trimBy_eq

theorem trimBy_map {β : Type} (q : β → Bool) (f : α → β) (xs : List α) :
    trimBy q (xs.map f) = (trimBy (q ∘ f) xs).map f := by
  simp only [trimBy, List.dropWhile_map, ← List.map_reverse]

end TapeMachines.Text
