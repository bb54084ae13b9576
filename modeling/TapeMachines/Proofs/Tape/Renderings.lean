import TapeMachines.Proofs.Tape.Representation
import TapeMachines.Proofs.Tape.Stretch
/-!
# The two texts of a tape

A tape is shown in two ways: `render` shows every visited cell, `contents` the cells from the first that is
not blank to the last. The sparse tape takes the second from the ends of its map and never trims anything.
That the two agree rests on `Sound`: no blank is stored, and what is stored lies between the bounds. A tape
seeded with either text holds the cells again, shifted to begin at 0. Main statement: `renderings_reload`.
-/

namespace TapeMachines.SparseTape

open Tape (stretch Ends)

/-! ## The ends of the map -/

section Sound

variable {s : SparseTape}

theorem Sound.mem_cells_iff (h : s.Sound) {p : Int} : p ∈ s.cells ↔ s.get p ≠ s.blank := by
  rw [← h.isStored_iff p, isStored, Std.TreeMap.mem_iff_contains]

theorem Sound.blank_outside (h : s.Sound) {p : Int} (hp : p < s.lowest ∨ s.highest < p) : s.get p = s.blank := by
  by_contra hne
  have hmem := h.mem_cells_iff.2 hne
  rw [Std.TreeMap.mem_iff_isSome_getElem?] at hmem
  have hwithin := h.within p hmem
  omega

/-- The first and the last key are the ends of what is not blank, and there are none on a blank tape. -/
theorem Sound.keys (h : s.Sound) :
    (∃ first last, s.cells.keys.head? = some first ∧ s.cells.keys.getLast? = some last ∧
      Ends s.blank s.get first last) ∨ (s.cells.keys.head? = none ∧ ∀ p, s.get p = s.blank) := by
  rw [← Std.TreeMap.minKey?_eq_head?_keys, ← Std.TreeMap.maxKey?_eq_getLast?_keys]
  -- The keys are the positions that are not blank, so the least of the ones is the least of the others.
  cases hfirst : s.cells.minKey? with
  | none =>
    right
    refine ⟨rfl, ?_⟩
    intro p
    by_contra hne
    have hmem := h.mem_cells_iff.2 hne
    rw [Std.TreeMap.minKey?_eq_none_iff, Std.TreeMap.isEmpty_iff_forall_not_mem] at hfirst
    exact hfirst p hmem
  | some first =>
    left
    obtain ⟨hmem, hleast⟩ := Std.TreeMap.minKey?_eq_some_iff_mem_and_forall.1 hfirst
    obtain ⟨last, hlast⟩ := Option.isSome_iff_exists.1 (Std.TreeMap.isSome_maxKey?_of_mem hmem)
    obtain ⟨hmem', hgreatest⟩ := Std.TreeMap.maxKey?_eq_some_iff_mem_and_forall.1 hlast
    refine ⟨first, last, rfl, hlast, ⟨h.mem_cells_iff.1 hmem, ?_⟩, h.mem_cells_iff.1 hmem', ?_⟩
    · intro p hp
      exact Int.isLE_compare.1 (hleast p (h.mem_cells_iff.2 hp))
    · intro p hp
      exact Int.isLE_compare.1 (hgreatest p (h.mem_cells_iff.2 hp))

theorem Sound.blank_or_ends (h : s.Sound) :
    (∀ p, s.get p = s.blank) ∨
      ∃ first last, Ends s.blank s.get first last ∧ s.lowest ≤ first ∧ last ≤ s.highest :=
  Tape.blank_or_ends (fun _ hp => h.blank_outside (.inl hp)) (fun _ hp => h.blank_outside (.inr hp))

/-! ## The texts -/

theorem Sound.contents_of_ends (h : s.Sound) {first last : Int} (he : Ends s.blank s.get first last) :
    s.contents = stretch s.get first last ∧ s.contentsOrigin = first := by
  rcases h.keys with ⟨a, b, ha, hb, hends⟩ | ⟨-, hblank⟩
  · obtain rfl := hends.first.unique he.first
    obtain rfl := hends.last.unique he.last
    simp [contents, contentsOrigin, ha, hb]
  · exact absurd (hblank first) he.first.1

theorem Sound.contents_of_blank (h : s.Sound) (hblank : ∀ p, s.get p = s.blank) :
    s.contents = [] ∧ s.contentsOrigin = s.head := by
  rcases h.keys with ⟨a, b, ha, hb, hends⟩ | ⟨hnone, -⟩
  · exact absurd (hblank a) hends.first.1
  · simp [contents, contentsOrigin, hnone]

/-- Whatever has been visited beside the contents is blank. -/
theorem Sound.isTrim (h : s.Sound) : Text.IsTrim (· == s.blank) s.render s.contents := by
  rcases h.blank_or_ends with hblank | ⟨first, last, he, hlow, hhigh⟩
  · rw [(h.contents_of_blank hblank).1, Text.isTrim_iff, Text.trimBy_eq_nil_iff, render]
    intro c hc
    obtain ⟨p, -, -, rfl⟩ := Tape.mem_stretch.1 hc
    simp [hblank p]
  · rw [(h.contents_of_ends he).1, render]
    exact he.isTrim hlow hhigh

theorem Sound.contentsOrigin_of_not_blank (h : s.Sound) (hs : ∃ p, s.get p ≠ s.blank) :
    s.contentsOrigin = s.lowest + (s.render.takeWhile (· == s.blank)).length := by
  obtain ⟨first, last, he, hlow, hhigh⟩ := h.blank_or_ends.resolve_left (not_forall.2 hs)
  have hlength := he.length_takeWhile hlow hhigh
  rw [(h.contents_of_ends he).2, render]
  omega

/-! ## Seeding a tape with a text -/

theorem Sound.get_ofList_render (h : s.Sound) (i : Int) :
    (SparseTape.ofList s.blank s.render).get i = s.get (s.lowest + i) := by
  rw [get_ofList, render]
  exact Tape.seedAt?_stretch (fun p hp => h.blank_outside (.inl hp)) (fun p hp => h.blank_outside (.inr hp)) i

theorem Sound.get_ofList_contents (h : s.Sound) (i : Int) :
    (SparseTape.ofList s.blank s.contents).get i = s.get (s.contentsOrigin + i) := by
  rw [get_ofList]
  rcases h.blank_or_ends with hblank | ⟨first, last, he, -⟩
  · rw [(h.contents_of_blank hblank).1, hblank]
    simp [Tape.seedAt?]
  · rw [(h.contents_of_ends he).1, (h.contents_of_ends he).2]
    exact Tape.seedAt?_stretch (fun p => he.blank_of_lt) (fun p => he.blank_of_gt) i

theorem render_ofList (blank : Char) {text : List Char} (h : text ≠ []) : (ofList blank text).render = text := by
  rw [render, lowest_ofList, highest_ofList, funext (get_ofList blank text)]
  exact Tape.stretch_seedAt? blank h

/-! ## The same texts on the other tape -/

theorem Shows.render {t : Tape} (h : s.Shows t) : s.render = t.render := by
  rw [SparseTape.render, Tape.render_eq_stretch, h.lowest, h.highest, funext h.get]

theorem Shows.contents {t : Tape} (hs : s.Sound) (h : s.Shows t) : s.contents = t.contents := by
  rw [Tape.contents, ← h.render, ← h.blank]
  exact hs.isTrim.trimBy_eq.symm

theorem Shows.contentsOrigin {t : Tape} (hs : s.Sound) (h : s.Shows t) : s.contentsOrigin = t.contentsOrigin := by
  rcases hs.blank_or_ends with hblank | ⟨first, last, he, -⟩
  · have hblank' : ∀ p, t.get p = t.blank := by
      intro p
      rw [← h.get, ← h.blank, hblank]
    rw [(hs.contents_of_blank hblank).2, Tape.contentsOrigin_of_blank hblank', h.head]
  · have he' := he
    rw [h.blank, funext h.get] at he'
    rw [(hs.contents_of_ends he).2, Tape.contentsOrigin_eq he']

end Sound

/-! ## Main theorem -/

/-- The texts of a tape after any actions. The rendering shows each position between the bounds once; the
contents are the rendering without its outer blanks and begin where these end, or at the head where there is
nothing else. Seeding a tape with either text brings all cells back, shifted by where the text began, and a
text that is not empty is the rendering of the tape seeded with it. -/
theorem renderings_reload (blank : Char) (seed : List Char) (actions : List Tape.Action) :
    let s := (ofList blank seed).afterAll actions
    let t := (Tape.ofList blank seed).afterAll actions
    ((s.render.length : Int) = s.highest - s.lowest + 1 ∧
      ∀ i : Nat, s.lowest + i ≤ s.highest → s.render[i]? = some (s.get (s.lowest + i))) ∧
    Text.IsTrim (· == blank) s.render s.contents ∧
    ((∃ p, s.get p ≠ blank) →
      s.contentsOrigin = s.lowest + (s.render.takeWhile (· == blank)).length) ∧
    ((∀ p, s.get p = blank) → s.contents = [] ∧ s.contentsOrigin = s.head) ∧
    (∀ i, (ofList blank s.render).get i = s.get (s.lowest + i)) ∧
    (∀ i, (ofList blank s.contents).get i = s.get (s.contentsOrigin + i)) ∧
    (∀ text, text ≠ [] → (ofList blank text).render = text ∧
      Text.IsTrim (· == blank) text (ofList blank text).contents) ∧
    s.Shows t ∧ s.render = t.render ∧ s.contents = t.contents ∧ s.contentsOrigin = t.contentsOrigin := by
  intro s t
  have hsound : s.Sound := (Sound.ofList blank seed).afterAll actions
  have hblank : s.blank = blank := (blank_afterAll _ actions).trans (blank_ofList blank seed)
  have hshows : s.Shows t := (Shows.ofList blank seed).afterAll (Sound.ofList blank seed) actions
  have htrim := hsound.isTrim
  have horigin := hsound.contentsOrigin_of_not_blank
  have hnone := hsound.contents_of_blank
  have hrender := hsound.get_ofList_render
  have hcontents := hsound.get_ofList_contents
  rw [hblank] at htrim horigin hnone hrender hcontents
  refine ⟨⟨?length, ?chars⟩, htrim, horigin, hnone, hrender, hcontents, ?seeded, hshows, hshows.render,
    hshows.contents hsound, hshows.contentsOrigin hsound⟩
  case length =>
    have hhead := hsound.head
    rw [render, Tape.length_stretch]
    omega
  case chars =>
    intro i hi
    rw [render, Tape.getElem?_stretch, if_pos hi]
  case seeded =>
    intro text htext
    have htrimmed := (Sound.ofList blank text).isTrim
    rw [render_ofList blank htext, blank_ofList] at htrimmed
    exact ⟨render_ofList blank htext, htrimmed⟩

/-- A tape that has grown to the left of its seed, with an erased cell inside and blanks visited on both
sides of what is left; and a blank one whose head has left the origin. -/
theorem renderings_reload_left_of_seed :
    let s := (ofList '_' "abc_".toList).afterAll
      [.write '_', .move .left, .move .left, .write 'z', .move .left, .move .left]
    let blank := (ofList '_' []).afterAll [.move .right]
    (∃ p, s.get p ≠ '_') ∧ s.render = "__z__bc_".toList ∧ s.contents = "z__bc".toList ∧ s.contentsOrigin = -2 ∧
      s.contentsOrigin = s.lowest + (s.render.takeWhile (· == '_')).length ∧
      s.render[2]? = some (s.get (s.lowest + (2 : Nat))) ∧ (ofList '_' "_b_".toList).render = "_b_".toList ∧
      (∀ p, blank.get p = '_') ∧ blank.contents = [] ∧ blank.contentsOrigin = 1 := by
  have h := renderings_reload '_' "abc_".toList
    [.write '_', .move .left, .move .left, .write 'z', .move .left, .move .left]
  have hz : ∃ p, ((ofList '_' "abc_".toList).afterAll
      [.write '_', .move .left, .move .left, .write 'z', .move .left, .move .left]).get p ≠ '_' := ⟨-2, by decide⟩
  have hblank : ∀ p, ((ofList '_' []).afterAll [.move .right]).get p = '_' := fun _ => rfl
  exact ⟨hz, by decide, by decide +kernel, by decide +kernel, h.2.2.1 hz, h.1.2 2 (by decide),
    (h.2.2.2.2.2.2.1 "_b_".toList (by decide)).1, hblank, (renderings_reload '_' [] [.move .right]).2.2.2.1 hblank⟩

end TapeMachines.SparseTape
