import Mathlib.Data.List.Forall2
import TapeMachines.Proofs.Text.Lines
import TapeMachines.Proofs.Text.Trim
import TapeMachines.Proofs.Text.Words
/-!
# The layout of a text

`Relaid` and `Respaced` are one change to the layout of a text: to the ends of its lines, or to a gap between words.
What the lines of a text say, trimmed and with their positions, is the same after the first (`Relaid.numbered_eq`);
after the second the same lines say something, and each says the same up to one gap (`Respaced.numbered`). Two lists
of lines that are alike line by line stay so when they are trimmed and numbered (`forall₂_numbered`).
-/

namespace TapeMachines.Text

/-- `line` is a whole line between what stands before it and what stands after it. -/
structure LineAt (before line after : List Char) : Prop where
  start : before = [] ∨ ∃ above, before = above ++ ['\n']
  unbroken : '\n' ∉ line
  stop : after = [] ∨ ∃ below, after = '\n' :: below

/-- The text with a carriage return before every line feed. -/
def withReturns (text : List Char) : List Char := text.flatMap fun c => if c = '\n' then ['\r', '\n'] else [c]

/-- Carriage returns before all line feeds, one more line feed at the end, or more white space where a line begins or
ends: at the very end of it, or among the white space that is there, as before a carriage return. -/
inductive Relaid : List Char → List Char → Prop where
  | returns (text) : Relaid text (withReturns text)
  | newline (text) : Relaid text (text ++ ['\n'])
  | space (before left white right after) : LineAt before (left ++ right) after →
      (∀ c ∈ white, isSpace c = true ∧ c ≠ '\n') → ((∀ c ∈ left, isSpace c = true) ∨ ∀ c ∈ right, isSpace c = true) →
      Relaid (before ++ (left ++ right) ++ after) (before ++ (left ++ white ++ right) ++ after)

/-- One row of spaces and tabs has become another one, neither of them empty. -/
inductive Respaced : List Char → List Char → Prop where
  | gap (before gap gap' after) : gap ≠ [] → gap' ≠ [] → (∀ c ∈ gap ++ gap', isGap c = true) →
      Respaced (before ++ gap ++ after) (before ++ gap' ++ after)

/-! ## Lines -/

/-- Another line in the place of one changes that line alone. -/
theorem LineAt.splitOn {before line after : List Char} (h : LineAt before line after) :
    ∃ pre post, ∀ line', '\n' ∉ line' → (before ++ line' ++ after).splitOn '\n' = pre ++ line' :: post := by
  have hstop : ∃ post, ∀ line', '\n' ∉ line' → (line' ++ after).splitOn '\n' = line' :: post := by
    rcases h.stop with rfl | ⟨below, rfl⟩
    · refine ⟨[], fun line' hline => ?_⟩
      rw [List.append_nil, List.splitOn_eq_singleton hline]
    · exact ⟨below.splitOn '\n', fun line' hline => List.splitOn_append_cons_self_of_not_mem hline below⟩
  obtain ⟨post, hpost⟩ := hstop
  rcases h.start with rfl | ⟨above, rfl⟩
  · exact ⟨[], post, hpost⟩
  · refine ⟨above.splitOn '\n', post, fun line' hline => ?_⟩
    rw [List.append_assoc, List.append_assoc, List.singleton_append, List.splitOn_append_cons_self, hpost line' hline]

/-- Any place in a text is in a line. -/
theorem exists_lineAt (before after : List Char) :
    ∃ above left right below, before = above ++ left ∧ after = right ++ below ∧
      ∀ mid, '\n' ∉ mid → LineAt above (left ++ mid ++ right) below := by
  refine ⟨before.rdropWhile (· ≠ '\n'), before.rtakeWhile (· ≠ '\n'), after.takeWhile (· ≠ '\n'),
    after.dropWhile (· ≠ '\n'), List.rdropWhile_append_rtakeWhile.symm, List.takeWhile_append_dropWhile.symm, ?_⟩
  intro mid hmid
  refine ⟨?_, ?_, ?_⟩
  · rcases List.eq_nil_or_concat (before.rdropWhile (· ≠ '\n')) with hnil | ⟨above, c, hlast⟩
    · exact .inl hnil
    · rw [List.concat_eq_append] at hlast
      have hc : (before.rdropWhile (· ≠ '\n')).getLast? = some c := by rw [hlast, List.getLast?_concat]
      obtain rfl : c = '\n' := by simpa using getLast?_rdropWhile hc
      exact .inr ⟨above, hlast⟩
  · have hleft : ∀ c ∈ before.rtakeWhile (· ≠ '\n'), c ≠ '\n' := fun c hc => by simpa using List.mem_rtakeWhile_imp hc
    have hright : ∀ c ∈ after.takeWhile (· ≠ '\n'), c ≠ '\n' := fun c hc => by simpa using List.mem_takeWhile_imp hc
    simp only [List.mem_append, not_or]
    exact ⟨⟨fun hc => hleft _ hc rfl, hmid⟩, fun hc => hright _ hc rfl⟩
  · cases hbelow : after.dropWhile (· ≠ '\n') with
    | nil => exact .inl rfl
    | cons c below =>
      have hc : (after.dropWhile (· ≠ '\n')).head? = some c := by rw [hbelow, List.head?_cons]
      obtain rfl : c = '\n' := by simpa using head?_dropWhile hc
      exact .inr ⟨below, rfl⟩

theorem trim_append_return (line : List Char) : trim (line ++ ['\r']) = trim line :=
  trimBy_append_of_forall (List.all_eq_true.1 rfl) line

theorem trim_dropReturn (line : List Char) : trim (dropReturn line) = trim line := by
  unfold dropReturn
  split
  · rename_i h
    conv_rhs => rw [← List.dropLast_append_getLast? '\r' h]
    exact (trim_append_return _).symm
  · rfl

/-- White space among the white space at an end is trimmed with it. -/
theorem trim_insert {left white right : List Char} (hwhite : ∀ c ∈ white, isSpace c = true)
    (hside : (∀ c ∈ left, isSpace c = true) ∨ ∀ c ∈ right, isSpace c = true) :
    trim (left ++ white ++ right) = trim (left ++ right) := by
  unfold trim
  rcases hside with hleft | hright
  · rw [trimBy_append_left (List.forall_mem_append.2 ⟨hleft, hwhite⟩), trimBy_append_left hleft]
  · rw [List.append_assoc, trimBy_append_of_forall (List.forall_mem_append.2 ⟨hwhite, hright⟩),
      trimBy_append_of_forall hright]

/-! ## Lines with their positions -/

theorem forall₂_zipIdx {α β : Type} {R : α → β → Prop} {xs : List α} {ys : List β} (h : List.Forall₂ R xs ys)
    (n : Nat) : List.Forall₂ (fun x y => x.2 = y.2 ∧ R x.1 y.1) (xs.zipIdx n) (ys.zipIdx n) := by
  induction h generalizing n with
  | nil => exact .nil
  | cons hxy _ ih =>
    rw [List.zipIdx_cons, List.zipIdx_cons]
    exact .cons ⟨rfl, hxy⟩ (ih (n + 1))

/-- Lines that are alike say something in the same places, and say alike things. -/
theorem forall₂_numbered {R : List Char → List Char → Prop} (hR : ∀ {l l'}, R l l' → (l = [] ↔ l' = []))
    {ls ls' : List (List Char)} (h : List.Forall₂ (fun l l' => R (trim l) (trim l')) ls ls') :
    List.Forall₂ (fun x y => x.1 = y.1 ∧ R x.2 y.2) (numbered ls) (numbered ls') := by
  refine List.rel_filterMap ?_ (forall₂_zipIdx h 1)
  rintro ⟨line, n⟩ ⟨line', m⟩ ⟨hn, hline⟩
  obtain rfl : n = m := hn
  by_cases hblank : trim line = []
  · have hblank' := (hR hline).1 hblank
    simp only [numberedLine, hblank, hblank', List.isEmpty_nil, if_true]
    exact .none
  · have hblank' := (hR hline).not.1 hblank
    simp only [numberedLine, List.isEmpty_iff, hblank, hblank', if_false]
    exact .some ⟨rfl, hline⟩

theorem numbered_congr {ls ls' : List (List Char)} (h : List.Forall₂ (fun l l' => trim l = trim l') ls ls') :
    numbered ls = numbered ls' := by
  have halike := forall₂_numbered (R := (· = ·)) (by rintro l _ rfl; rfl) h
  rw [← List.forall₂_eq_eq_eq]
  exact halike.imp fun x y hxy => Prod.ext hxy.1 hxy.2

/-- Where a line ends makes no difference to what it says, and neither does an empty last line. -/
theorem numbered_lines (text : List Char) : numbered (lines text) = numbered (text.splitOn '\n') := by
  obtain ⟨pieces, last, hsplit⟩ := (List.eq_nil_or_concat (text.splitOn '\n')).resolve_left (List.splitOn_ne_nil _ _)
  rw [List.concat_eq_append] at hsplit
  have hends : numbered (pieces.map dropReturn) = numbered pieces := by
    refine numbered_congr ?_
    rw [List.forall₂_map_left_iff, List.forall₂_same]
    exact fun line _ => trim_dropReturn line
  have hlast : numbered ([last].filter fun l => !l.isEmpty) = numbered [last] := by
    cases last <;> rfl
  rw [lines, hsplit, List.dropLast_concat, List.getLast?_concat, Option.toList_some, numbered_append, numbered_append,
    hends, hlast, List.length_map]

/-! ## Changes to a text -/

variable {text text' : List Char}

/-- With carriage returns, a line is longer by one or, if it is the last, the same. -/
theorem forall₂_splitOn_withReturns (text : List Char) :
    List.Forall₂ (fun l l' => l' = l ∨ l' = l ++ ['\r']) (text.splitOn '\n') ((withReturns text).splitOn '\n') := by
  induction text with
  | nil => exact .cons (.inl rfl) .nil
  | cons c text ih =>
    have hcons : withReturns (c :: text) = (if c = '\n' then ['\r', '\n'] else [c]) ++ withReturns text := rfl
    by_cases hc : c = '\n'
    · subst hc
      rw [hcons, if_pos rfl]
      exact .cons (.inr rfl) ih
    · rw [hcons, if_neg hc, List.singleton_append, List.splitOn_cons_eq_if_modifyHead,
        List.splitOn_cons_eq_if_modifyHead, if_neg (by simpa using hc), if_neg (by simpa using hc)]
      generalize text.splitOn '\n' = pieces, (withReturns text).splitOn '\n' = pieces' at ih ⊢
      cases ih with
      | nil => exact .nil
      | cons hfirst hrest =>
        refine .cons ?_ hrest
        rcases hfirst with rfl | rfl
        · exact .inl rfl
        · exact .inr rfl

theorem Relaid.numbered_eq (h : Relaid text text') : numbered (lines text') = numbered (lines text) := by
  rw [numbered_lines, numbered_lines]
  cases h with
  | returns =>
    refine (numbered_congr ((forall₂_splitOn_withReturns text).imp ?_)).symm
    rintro line _ (rfl | rfl)
    · rfl
    · exact (trim_append_return line).symm
  | newline =>
    rw [List.splitOn_append_cons_self, List.splitOn_nil, numbered_append]
    exact List.append_nil _
  | space before left white right after hline hwhite hside =>
    obtain ⟨pre, post, hsplit⟩ := hline.splitOn
    have hspace : ∀ c ∈ white, isSpace c = true := fun c hc => (hwhite c hc).1
    have hunbroken : '\n' ∉ left ++ white ++ right := by
      have := hline.unbroken
      simp only [List.mem_append, not_or] at this ⊢
      exact ⟨⟨this.1, fun hc => (hwhite _ hc).2 rfl⟩, this.2⟩
    rw [hsplit _ hline.unbroken, hsplit _ hunbroken]
    refine numbered_congr (List.rel_append ?_ (.cons (trim_insert hspace hside) ?_)) <;>
      exact List.forall₂_same.2 fun _ _ => rfl

theorem Respaced.eq_nil_iff (h : Respaced text text') : text = [] ↔ text' = [] := by
  cases h with
  | gap _ _ _ _ hne hne' _ => simp [hne, hne']

/-- A gap at an end of a line is lost when the line is trimmed, and any other is kept as it is. -/
theorem Respaced.trim (h : Respaced text text') : trim text = trim text' ∨ Respaced (trim text) (trim text') := by
  cases h with
  | gap before gap gap' after hne hne' hgap =>
    obtain ⟨hold, hnew⟩ := List.forall_mem_append.1 fun c hc => isSpace_of_isGap (hgap c hc)
    by_cases hside : (∀ c ∈ before, isSpace c = true) ∨ ∀ c ∈ after, isSpace c = true
    · left
      rw [trim_insert hold hside, trim_insert hnew hside]
    · right
      rw [not_or] at hside
      rw [Text.trim, Text.trim, trimBy_append_append hside.1 hside.2, trimBy_append_append hside.1 hside.2]
      exact .gap _ _ _ _ hne hne' hgap

/-- One line has another gap. -/
theorem Respaced.splitOn (h : Respaced text text') :
    List.Forall₂ (fun l l' => l = l' ∨ Respaced l l') (text.splitOn '\n') (text'.splitOn '\n') := by
  cases h with
  | gap before gap gap' after hne hne' hgap =>
    obtain ⟨above, left, right, below, rfl, rfl, hline⟩ := exists_lineAt before after
    have hunbroken : '\n' ∉ gap ++ gap' := fun hc => absurd (hgap _ hc) (by decide)
    rw [List.mem_append, not_or] at hunbroken
    have hold := hline gap hunbroken.1
    have hnew := hline gap' hunbroken.2
    obtain ⟨pre, post, hsplit⟩ := hold.splitOn
    have hsplit_old := hsplit _ hold.unbroken
    have hsplit_new := hsplit _ hnew.unbroken
    simp only [List.append_assoc] at hsplit_old hsplit_new ⊢
    rw [hsplit_old, hsplit_new]
    refine List.rel_append ?_ (.cons (.inr ?_) ?_)
    · exact List.forall₂_same.2 fun _ _ => .inl rfl
    · rw [← List.append_assoc, ← List.append_assoc]
      exact .gap _ _ _ _ hne hne' hgap
    · exact List.forall₂_same.2 fun _ _ => .inl rfl

theorem Respaced.numbered (h : Respaced text text') :
    List.Forall₂ (fun x y => x.1 = y.1 ∧ (x.2 = y.2 ∨ Respaced x.2 y.2)) (numbered (lines text))
      (numbered (lines text')) := by
  rw [numbered_lines, numbered_lines]
  refine forall₂_numbered (R := fun l l' => l = l' ∨ Respaced l l') ?_ (h.splitOn.imp ?_)
  · rintro l l' (rfl | h)
    · rfl
    · exact h.eq_nil_iff
  · rintro l l' (rfl | h)
    · exact .inl rfl
    · exact h.trim

/-- A gap keeps the same words apart however long it is. -/
theorem Respaced.words_eq (h : Respaced text text') : words text = words text' := by
  cases h with
  | gap before gap gap' after hne hne' hgap =>
    obtain ⟨hold, hnew⟩ := List.forall_mem_append.1 hgap
    rw [words_append_gaps hne hold, words_append_gaps hne' hnew]

end TapeMachines.Text
