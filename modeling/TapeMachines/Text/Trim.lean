/-!
# Trimming

`trimBy p` removes the elements satisfying `p` from both ends of a list. Listing lines lose their
outer white space this way, and a tape its outer blanks.
-/

namespace TapeMachines.Text

variable {α : Type}

def trimBy (p : α → Bool) (xs : List α) : List α :=
  ((xs.dropWhile p).reverse.dropWhile p).reverse

@[simp] theorem trimBy_nil (p : α → Bool) : trimBy p [] = [] := rfl

theorem trimBy_sublist (p : α → Bool) (xs : List α) : (trimBy p xs).Sublist xs := by
  unfold trimBy
  rw [← List.reverse_sublist, List.reverse_reverse]
  exact (List.dropWhile_sublist p).trans (List.reverse_sublist.2 (List.dropWhile_sublist p))

end TapeMachines.Text
