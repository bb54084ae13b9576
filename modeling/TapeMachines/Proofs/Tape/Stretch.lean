import Mathlib.Data.Int.LeastGreatest
import Mathlib.Order.Bounds.Basic
import TapeMachines.Proofs.Tape.Past
import TapeMachines.Proofs.Tape.Window
import TapeMachines.Proofs.Text.Trim
/-!
# Stretches of cells

A stretch is what a function from positions to symbols holds from one position to another. Both texts of a
tape are stretches of its cells: the rendering is the one between the visited bounds, the contents are the
one between the outermost cells that are not blank (`Ends`). So the contents depend on the cells alone
(`contents_eq_stretch`), however much of the tape has been visited. A tape seeded from a rendering has the
cells again, counted from where it begins (`get_ofList_render`).
-/

namespace TapeMachines.Tape

section Stretch

variable {cells : Int → Char} {first last : Int}

theorem length_stretch : (stretch cells first last).length = (last + 1 - first).toNat := by
  simp [stretch]

theorem getElem?_stretch (i : Nat) :
    (stretch cells first last)[i]? = if first + i ≤ last then some (cells (first + i)) else none := by
  unfold stretch
  split
  · rw [List.getElem?_map, List.getElem?_range (by omega)]
    rfl
  · apply List.getElem?_eq_none
    simp only [List.length_map, List.length_range]
    omega

theorem mem_stretch {c : Char} : c ∈ stretch cells first last ↔ ∃ p, first ≤ p ∧ p ≤ last ∧ cells p = c := by
  simp only [stretch, List.mem_map, List.mem_range]
  constructor
  · rintro ⟨i, hi, rfl⟩
    exact ⟨first + i, by omega, by omega, rfl⟩
  · rintro ⟨p, hfirst, hlast, rfl⟩
    refine ⟨(p - first).toNat, by omega, ?_⟩
    rw [show first + ((p - first).toNat : Int) = p by omega]

/-- A stretch is cut in two before the position `mid`. -/
theorem stretch_append {mid : Int} (hfirst : first ≤ mid) (hlast : mid ≤ last + 1) :
    stretch cells first (mid - 1) ++ stretch cells mid last = stretch cells first last := by
  apply List.ext_getElem?
  intro i
  rw [List.getElem?_append, length_stretch, getElem?_stretch, getElem?_stretch, getElem?_stretch]
  split
  · rw [if_pos (by omega), if_pos (by omega)]
  · -- The index counts on from the end of the first part.
    rw [show mid + ((i - (mid - 1 + 1 - first).toNat : Nat) : Int) = first + i by omega]

theorem stretch_eq_replicate {c : Char} (h : ∀ p, first ≤ p → p ≤ last → cells p = c) :
    stretch cells first last = List.replicate (last + 1 - first).toNat c := by
  rw [List.eq_replicate_iff, length_stretch]
  refine ⟨rfl, ?_⟩
  intro x hx
  obtain ⟨p, hp, hp', rfl⟩ := mem_stretch.1 hx
  exact h p hp hp'

/-- A stretch is a shorter one inside it with blanks on both sides, where all it holds beside that is blank. -/
theorem stretch_eq_padded {blank : Char} {lowest highest : Int} (hlow : lowest ≤ first) (hhigh : last ≤ highest)
    (hle : first ≤ last + 1) (hbefore : ∀ p, lowest ≤ p → p < first → cells p = blank)
    (hafter : ∀ p, last < p → p ≤ highest → cells p = blank) :
    stretch cells lowest highest =
      List.replicate (first - lowest).toNat blank ++ stretch cells first last ++
        List.replicate (highest - last).toNat blank := by
  have hleft : stretch cells lowest (first - 1) = List.replicate (first - lowest).toNat blank := by
    rw [stretch_eq_replicate fun p hp hp' => hbefore p hp (by omega)]
    congr 1
    omega
  have hright : stretch cells (last + 1) highest = List.replicate (highest - last).toNat blank := by
    rw [stretch_eq_replicate fun p hp hp' => hafter p (by omega) hp']
    congr 1
    omega
  have hkept : stretch cells first last ++ stretch cells (last + 1) highest = stretch cells first highest := by
    have hcut : stretch cells first (last + 1 - 1) ++ stretch cells (last + 1) highest = _ :=
      stretch_append hle (by omega)
    rwa [add_sub_cancel_right] at hcut
  rw [← hleft, ← hright, List.append_assoc, hkept, stretch_append hlow (by omega)]

/-- A seed that holds a stretch with only blanks outside it holds the cells, shifted to begin at 0. -/
theorem seedAt?_stretch {blank : Char} (hbefore : ∀ p, p < first → cells p = blank)
    (hafter : ∀ p, last < p → cells p = blank) (i : Int) :
    (seedAt? (stretch cells first last) i).getD blank = cells (first + i) := by
  unfold seedAt?
  split
  · rw [getElem?_stretch, show first + (i.toNat : Int) = first + i by omega]
    split
    · rfl
    · exact (hafter _ (by omega)).symm
  · exact (hbefore _ (by omega)).symm

/-- A seed is the stretch of its own positions. -/
theorem stretch_seedAt? (blank : Char) {seed : List Char} (h : seed ≠ []) :
    stretch (fun p => (seedAt? seed p).getD blank) 0 (seed.length - 1 : Nat) = seed := by
  have hlength := List.length_pos_iff.2 h
  apply List.ext_getElem?
  intro i
  rw [getElem?_stretch]
  split
  · have hi : i < seed.length := by omega
    simp [seedAt?, hi]
  · exact (List.getElem?_eq_none (by omega)).symm

end Stretch

/-! ## The outermost cells that are not blank -/

structure Ends (blank : Char) (cells : Int → Char) (first last : Int) : Prop where
  first : IsLeast {p | cells p ≠ blank} first
  last : IsGreatest {p | cells p ≠ blank} last

section Ends

variable {blank : Char} {cells : Int → Char} {lowest first last highest p : Int}

theorem Ends.le (h : Ends blank cells first last) : first ≤ last := h.last.2 h.first.1

theorem Ends.blank_of_lt (h : Ends blank cells first last) (hp : p < first) : cells p = blank := by
  by_contra hne
  have hle : first ≤ p := h.first.2 hne
  omega

theorem Ends.blank_of_gt (h : Ends blank cells first last) (hp : last < p) : cells p = blank := by
  by_contra hne
  have hle : p ≤ last := h.last.2 hne
  omega

/-- Where only blanks lie outside some bounds, all cells are blank or the ends lie between these. -/
theorem blank_or_ends (hbefore : ∀ p, p < lowest → cells p = blank) (hafter : ∀ p, highest < p → cells p = blank) :
    (∀ p, cells p = blank) ∨ ∃ first last, Ends blank cells first last ∧ lowest ≤ first ∧ last ≤ highest := by
  rw [or_iff_not_imp_left, not_forall]
  intro h
  have hlow : ∀ p, cells p ≠ blank → lowest ≤ p := by
    intro p hp
    by_contra hlt
    exact hp (hbefore p (by omega))
  have hhigh : ∀ p, cells p ≠ blank → p ≤ highest := by
    intro p hp
    by_contra hlt
    exact hp (hafter p (by omega))
  obtain ⟨first, hfirst, hleast⟩ := Int.exists_least_of_bdd ⟨lowest, hlow⟩ h
  obtain ⟨last, hlast, hgreatest⟩ := Int.exists_greatest_of_bdd ⟨highest, hhigh⟩ h
  exact ⟨first, last, ⟨⟨hfirst, hleast⟩, ⟨hlast, hgreatest⟩⟩, hlow first hfirst, hhigh last hlast⟩

/-- The stretch between the ends neither begins nor ends with a blank. -/
theorem Ends.edges (h : Ends blank cells first last) :
    (∃ c, (stretch cells first last).head? = some c ∧ c ≠ blank) ∧
      ∃ c, (stretch cells first last).getLast? = some c ∧ c ≠ blank := by
  have hle := h.le
  constructor
  · refine ⟨cells first, ?_, h.first.1⟩
    rw [List.head?_eq_getElem?, getElem?_stretch, if_pos (by omega)]
    simp
  · refine ⟨cells last, ?_, h.last.1⟩
    rw [List.getLast?_eq_getElem?, getElem?_stretch, length_stretch, if_pos (by omega)]
    congr 2
    omega

/-- A stretch that holds both ends is the one between them with blanks on both sides. -/
theorem Ends.stretch_eq (h : Ends blank cells first last) (hlow : lowest ≤ first) (hhigh : last ≤ highest) :
    stretch cells lowest highest =
      List.replicate (first - lowest).toNat blank ++ stretch cells first last ++
        List.replicate (highest - last).toNat blank := by
  have hle := h.le
  exact stretch_eq_padded hlow hhigh (by omega) (fun p _ hp => h.blank_of_lt hp) fun p hp _ => h.blank_of_gt hp

theorem Ends.isTrim (h : Ends blank cells first last) (hlow : lowest ≤ first) (hhigh : last ≤ highest) :
    Text.IsTrim (· == blank) (stretch cells lowest highest) (stretch cells first last) where
  split := by
    refine ⟨_, _, h.stretch_eq hlow hhigh, ?_, ?_⟩
    · intro x hx
      rw [List.eq_of_mem_replicate hx, beq_self_eq_true]
    · intro x hx
      rw [List.eq_of_mem_replicate hx, beq_self_eq_true]
  head x hx := by
    obtain ⟨⟨c, hc, hne⟩, -⟩ := h.edges
    rw [hc] at hx
    simpa using Option.some.inj hx ▸ hne
  last x hx := by
    obtain ⟨-, c, hc, hne⟩ := h.edges
    rw [hc] at hx
    simpa using Option.some.inj hx ▸ hne

/-- The blanks before the first end are those that trimming takes away. -/
theorem Ends.length_takeWhile (h : Ends blank cells first last) (hlow : lowest ≤ first) (hhigh : last ≤ highest) :
    (((stretch cells lowest highest).takeWhile (· == blank)).length : Int) = first - lowest := by
  obtain ⟨⟨c, hc, hne⟩, -⟩ := h.edges
  obtain ⟨rest, hrest⟩ := List.head?_eq_some_iff.1 hc
  have hblanks : ∀ x ∈ List.replicate (first - lowest).toNat blank, (x == blank) = true := by
    intro x hx
    rw [List.eq_of_mem_replicate hx, beq_self_eq_true]
  rw [h.stretch_eq hlow hhigh, List.append_assoc, List.takeWhile_append_of_pos hblanks, hrest, List.cons_append,
    List.takeWhile_cons_of_neg (by simpa using hne), List.append_nil, List.length_replicate]
  omega

end Ends

/-! ## The texts of a tape -/

variable {t : Tape} {first last : Int}

theorem render_eq_stretch (t : Tape) : t.render = stretch t.get t.leftmost t.rightmost := t.render_eq_window

theorem render_ne_nil (t : Tape) : t.render ≠ [] := by simp [render]

theorem isBlank_iff : t.isBlank = true ↔ ∀ p, t.get p = t.blank := by
  have hrender : t.isBlank = true ↔ ∀ c ∈ t.render, c = t.blank := by
    simp only [isBlank, render, Bool.and_eq_true, beq_iff_eq, List.all_eq_true, List.mem_append, List.mem_reverse,
      List.mem_cons]
    constructor
    · rintro ⟨⟨hs, hl⟩, hr⟩ c (hc | rfl | hc)
      · exact hl c hc
      · exact hs
      · exact hr c hc
    · intro h
      exact ⟨⟨h _ (.inr (.inl rfl)), fun c hc => h c (.inl hc)⟩, fun c hc => h c (.inr (.inr hc))⟩
  rw [hrender, render_eq_stretch]
  constructor
  · intro h p
    by_cases hp : t.leftmost ≤ p ∧ p ≤ t.rightmost
    · exact h _ (mem_stretch.2 ⟨p, hp.1, hp.2, rfl⟩)
    · -- Outside the window every cell is blank.
      rcases not_and_or.1 hp with hp | hp
      · exact get_of_lt_leftmost (by omega)
      · exact get_of_gt_rightmost (by omega)
  · intro h c hc
    obtain ⟨p, -, -, rfl⟩ := mem_stretch.1 hc
    exact h p

theorem blank_or_contents (t : Tape) :
    (∀ p, t.get p = t.blank) ∨ ∃ first last, Ends t.blank t.get first last :=
  (blank_or_ends (fun _ => get_of_lt_leftmost) (fun _ => get_of_gt_rightmost)).imp_right
    fun ⟨first, last, he, _⟩ => ⟨first, last, he⟩

theorem Ends.leftmost_le (h : Ends t.blank t.get first last) : t.leftmost ≤ first := by
  by_contra hlt
  exact h.first.1 (get_of_lt_leftmost (by omega))

theorem Ends.le_rightmost (h : Ends t.blank t.get first last) : last ≤ t.rightmost := by
  by_contra hlt
  exact h.last.1 (get_of_gt_rightmost (by omega))

theorem contents_eq_stretch (h : Ends t.blank t.get first last) : t.contents = stretch t.get first last := by
  rw [contents, render_eq_stretch]
  exact (h.isTrim h.leftmost_le h.le_rightmost).trimBy_eq

theorem contentsOrigin_eq (h : Ends t.blank t.get first last) : t.contentsOrigin = first := by
  have hblank : ¬t.isBlank = true := fun hb => h.first.1 (isBlank_iff.1 hb first)
  have hlength := h.length_takeWhile h.leftmost_le h.le_rightmost
  rw [contentsOrigin, if_neg hblank, render_eq_stretch]
  omega

theorem contents_of_blank (h : ∀ p, t.get p = t.blank) : t.contents = [] := by
  rw [contents, Text.trimBy_eq_nil_iff, render_eq_stretch]
  intro c hc
  obtain ⟨p, -, -, rfl⟩ := mem_stretch.1 hc
  simp [h p]

theorem contentsOrigin_of_blank (h : ∀ p, t.get p = t.blank) : t.contentsOrigin = t.head := by
  rw [contentsOrigin, if_pos (isBlank_iff.2 h)]

/-! ## A tape seeded from a text -/

theorem get_ofList_eq_seedAt? (blank : Char) (seed : List Char) (p : Int) :
    (ofList blank seed).get p = (seedAt? seed p).getD blank := by
  rw [get_ofList, seedAt?]
  split <;> rfl

theorem render_ofList {blank : Char} {input : List Char} (h : input ≠ []) : (ofList blank input).render = input := by
  cases input with
  | nil => exact absurd rfl h
  | cons c cs => rfl

/-- A tape seeded from what another one renders has that one's cells, counted from where the rendering begins. -/
theorem get_ofList_render (t : Tape) (i : Int) : (ofList t.blank t.render).get i = t.get (t.leftmost + i) := by
  rw [get_ofList_eq_seedAt?, render_eq_stretch]
  exact seedAt?_stretch (fun _ => get_of_lt_leftmost) (fun _ => get_of_gt_rightmost) i

end TapeMachines.Tape
