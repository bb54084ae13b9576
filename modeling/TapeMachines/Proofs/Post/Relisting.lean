import Mathlib.Data.List.Nodup
import TapeMachines.Proofs.Post.Lookup
import TapeMachines.Proofs.Post.Words
/-!
# Listing a program again

A program that was read from a listing can be listed again: each instruction on its own line, with its
number as a label, and nothing on the lines between. `ofLines_listing` says that this listing is read as
the program it was made from. Without a label the text of an instruction may be read as something else;
`lineWords_joined_iff` tells when not. Main statement: `listings_round_trip`.
-/

namespace TapeMachines.Post

open Text

variable {ws : List (List Char)}

/-! ## The text of an instruction -/

/-- The words of a line: none is empty or holds a gap, and the last does not end with white space. -/
structure Tidy (ws : List (List Char)) : Prop where
  gapless : ∀ w ∈ ws, w ≠ [] ∧ ∀ c ∈ w, isGap c = false
  last : ∀ c, (joined ws).getLast? = some c → isSpace c = false

theorem dropLabel_suffix (line : List Char) : dropLabel line <:+ line := by
  rcases isBody_iff.2 (Eq.refl (dropLabel line)) with ⟨label, -, h⟩ | ⟨-, h⟩
  · exact ⟨label, h.symm⟩
  · exact ⟨[], h⟩

theorem tidy_of_lineWords {line : List Char} (h : lineWords line = some ws) : Tidy ws where
  gapless := lineWords_of_mem h
  last := by
    obtain ⟨text, body, htrim, -, hbody, hruns⟩ := lineWords_eq_some_iff.1 h
    obtain ⟨label, htext⟩ : body <:+ text := by
      rw [← isBody_iff.1 hbody]
      exact dropLabel_suffix text
    obtain rfl := hruns.words_eq
    intro c hc
    cases hlast : body.getLast? with
    | none =>
      rw [List.getLast?_eq_none_iff.1 hlast] at hc
      cases hc
    | some d =>
      have hd : isSpace d = false := htrim.last d (by rw [← htext, List.getLast?_append, hlast]; rfl)
      rw [getLast?_joined_words hlast (not_isGap_of_not_isSpace hd)] at hc
      obtain rfl := Option.some.inj hc
      exact hd

theorem Tidy.words_joined (h : Tidy ws) : words (joined ws) = ws := Text.words_joined h.gapless

theorem Tidy.rdropWhile_joined (h : Tidy ws) : (joined ws).rdropWhile isSpace = joined ws :=
  rdropWhile_eq_self h.last

/-- Behind a label and a space the text has its words. -/
theorem Tidy.lineWords_labelled (h : Tidy ws) {label : List Char} (hl : IsLabel label) :
    lineWords (label ++ ' ' :: joined ws) = some ws := by
  have hwords : words ((' ' :: joined ws).rdropWhile isSpace) = ws := by
    by_cases hnil : joined ws = []
    · rw [hnil, ← h.words_joined, hnil]
      rfl
    · have hlast : ∀ c, (' ' :: joined ws).getLast? = some c → isSpace c = false := by
        rw [List.getLast?_cons_of_ne_nil hnil]
        exact h.last
      rw [rdropWhile_eq_self hlast, words_gap_cons (by decide), h.words_joined]
  have hline := lineWords_label (List.forall_mem_nil _) hl (' ' :: joined ws)
  rwa [hwords] at hline

/-- Whoever has the words of a line although a part in front of it is gone has lost only gaps. -/
theorem isGap_of_words_eq {body lead rest : List Char} (h : words body = words (lead ++ rest))
    (hs : body.Sublist rest) : ∀ c ∈ lead, isGap c = true := by
  have hflat := congrArg (fun ws => (ws.flatten).length) h
  simp only [flatten_words, List.filter_append, List.length_append] at hflat
  have hle := (hs.filter fun c => !isGap c).length_le
  have hnone : lead.filter (fun c => !isGap c) = [] := List.eq_nil_of_length_eq_zero (by omega)
  rw [List.filter_eq_nil_iff] at hnone
  intro c hc
  simpa using hnone c hc

/-- Alone on a line the text has its words exactly if it begins with a character that is neither white
space nor part of a label. -/
theorem lineWords_joined_iff (h : Tidy ws) :
    lineWords (joined ws) = some ws ↔
      joined ws ≠ [] ∧ (∀ c, (joined ws).head? = some c → isSpace c = false) ∧ Unlabelled (joined ws) := by
  constructor
  · intro hws
    refine ⟨?_, ?_, ?_⟩
    · intro hnil
      rw [hnil] at hws
      cases hws
    · intro c hc
      by_contra hspace
      have hspace : isSpace c = true := by simpa using hspace
      obtain ⟨rest, hrest⟩ : ∃ rest, joined ws = c :: rest := List.head?_eq_some_iff.1 hc
      obtain ⟨text, body, htrim, -, hbody, hruns⟩ := lineWords_eq_some_iff.1 hws
      have hsub : body.Sublist rest := by
        rw [← isBody_iff.1 hbody, ← isTrim_iff.1 htrim, hrest]
        have hdrop : trimBy isSpace (c :: rest) = trimBy isSpace rest := by
          rw [← List.singleton_append]
          exact trimBy_append_left (by simpa using hspace)
        rw [hdrop]
        exact (dropLabel_suffix _).sublist.trans (trimBy_sublist _ _)
      have hgap : words body = words ([c] ++ rest) := by
        rw [List.singleton_append, ← hrest, h.words_joined, hruns.words_eq]
      have hc' := not_isGap_of_head?_joined h.gapless hc
      rw [isGap_of_words_eq hgap hsub c List.mem_cons_self] at hc'
      cases hc'
    · rintro label hl ⟨rest, hrest⟩
      have hline := lineWords_label (List.forall_mem_nil _) hl rest
      rw [List.nil_append, hrest, hws, Option.some.injEq] at hline
      have hgap : words (rest.rdropWhile isSpace) = words (label ++ rest) := by
        rw [← hline, hrest, h.words_joined]
      have hpoint := isGap_of_words_eq hgap (List.rdropWhile_prefix _ _).sublist '.'
        (List.mem_of_getLast? hl.getLast?)
      cases hpoint
  · rintro ⟨hne, hhead, hu⟩
    obtain ⟨c, rest, hrest⟩ := List.exists_cons_of_ne_nil hne
    have hc : (joined ws).head? = some c := by rw [hrest]; rfl
    have hline := lineWords_unlabelled (List.forall_mem_nil _) ⟨c, hc, hhead c hc⟩ hu
    rwa [List.nil_append, h.rdropWhile_joined, h.words_joined] at hline

/-! ## Instructions of a listing -/

namespace Program

theorem line_le_of_mem_ofLines {ls : List String} {i : Instruction} (h : i ∈ (ofLines ls).instructions) :
    i.line ≤ ls.length := by
  obtain ⟨n, line, ws, hline, -, rfl⟩ := mem_ofLines_iff.1 h
  exact (List.getElem?_eq_some_iff.1 hline).1

theorem tidy_of_mem_ofLines {ls : List String} {i : Instruction} (h : i ∈ (ofLines ls).instructions) :
    ∃ ws, Tidy ws ∧ i = .ofWords i.line ws := by
  obtain ⟨n, line, ws, -, hws, rfl⟩ := mem_ofLines_iff.1 h
  exact ⟨ws, tidy_of_lineWords hws, rfl⟩

/-- Line `k` of a listing of the program: the text of its instruction behind a label, if it has one. -/
def labelledLine (p : Program) (k : Nat) : String :=
  match p.find? k with
  | some i => toString k ++ ". " ++ i.text
  | none => ""

/-- The first `n` lines of a listing of the program. -/
def listing (p : Program) (n : Nat) : List String := (List.range' 1 n).map p.labelledLine

theorem isLabel_toDigits (k : Nat) : IsLabel (Nat.toDigits 10 k ++ ['.']) :=
  ⟨_, Nat.toDigits_ne_nil, fun _ hc => Nat.isDigit_of_mem_toDigits (by decide) (by decide) hc, rfl⟩

/-- A line of the listing is read as the instruction that it was made from. -/
theorem lineWords_labelledLine (ls : List String) (k : Nat) :
    (lineWords ((ofLines ls).labelledLine k).toList).map (.ofWords k) = (ofLines ls).find? k := by
  rw [labelledLine]
  split
  · rename_i i hi
    obtain ⟨ws, htidy, hi'⟩ := tidy_of_mem_ofLines (mem_of_find? hi)
    have htext : (toString k ++ ". " ++ i.text).toList = (Nat.toDigits 10 k ++ ['.']) ++ ' ' :: joined ws := by
      rw [hi', String.toList_append, String.toList_append, Nat.toString_eq_ofList_toDigits, String.toList_ofList]
      simp [Instruction.ofWords]
    rw [htext, htidy.lineWords_labelled (isLabel_toDigits k), hi, hi', line_of_find? hi]
    rfl
  · rename_i hnone
    rw [hnone]
    rfl

theorem instructions_ofLines_listing (ls : List String) (n : Nat) :
    (ofLines ((ofLines ls).listing n)).instructions = (List.range' 1 n).filterMap (ofLines ls).find? := by
  have hplaces : (List.range' 1 n).zipIdx 1 = (List.range' 1 n).map fun k => (k, k) := by
    rw [List.zipIdx_eq_zip_range', List.length_range']
    have hpairs : ((List.range' 1 n).map id).zip ((List.range' 1 n).map id) = (List.range' 1 n).map fun k => (k, k) :=
      List.zip_map'
    rwa [List.map_id] at hpairs
  rw [instructions_ofLines, listing, List.map_map, List.zipIdx_map, hplaces, List.filterMap_map, List.filterMap_map]
  exact List.filterMap_congr fun k _ => lineWords_labelledLine ls k

/-- The instructions of a listing ascend, so they are found one after the other. -/
theorem filterMap_find? (ls : List String) {n : Nat} (hn : ∀ i ∈ (ofLines ls).instructions, i.line ≤ n) :
    (List.range' 1 n).filterMap (ofLines ls).find? = (ofLines ls).instructions := by
  have hfound : ((List.range' 1 n).filterMap (ofLines ls).find?).Pairwise fun i j => i.line < j.line := by
    rw [List.pairwise_filterMap]
    have hrange : (List.range' 1 n).Pairwise (· < ·) := List.pairwise_lt_range'
    refine hrange.imp fun hlt i hi j hj => ?_
    rwa [line_of_find? hi, line_of_find? hj]
  have hread : (ofLines ls).instructions.Pairwise fun i j => i.line < j.line := by
    rw [← List.pairwise_map, ofLines, List.map_map]
    exact positions_numbered _
  have hmem : ∀ i, i ∈ (List.range' 1 n).filterMap (ofLines ls).find? ↔ i ∈ (ofLines ls).instructions := by
    intro i
    simp only [List.mem_filterMap, List.mem_range'_1, find?_eq_some_iff (distinctLines_ofLines ls)]
    constructor
    · rintro ⟨k, -, hi, -⟩
      exact hi
    · intro hi
      obtain ⟨k, _, _, -, -, rfl⟩ := mem_ofLines_iff.1 hi
      have hle := hn _ hi
      exact ⟨k + 1, ⟨by omega, Nat.lt_of_le_of_lt hle (by omega)⟩, hi, rfl⟩
  have hirrefl : ∀ i j : Instruction, i.line < j.line → i ≠ j := by
    rintro i _ hlt rfl
    exact Nat.lt_irrefl _ hlt
  refine List.Perm.eq_of_pairwise (fun i j _ _ hij hji => ?_) hfound hread ?_
  · exact absurd hij (Nat.lt_asymm hji)
  · rw [List.perm_ext_iff_of_nodup (hfound.imp (hirrefl _ _)) (hread.imp (hirrefl _ _))]
    exact hmem

theorem ofLines_listing (ls : List String) {n : Nat} (hn : ∀ i ∈ (ofLines ls).instructions, i.line ≤ n) :
    ofLines ((ofLines ls).listing n) = ofLines ls := by
  have hi := (instructions_ofLines_listing ls n).trans (filterMap_find? ls hn)
  exact congrArg mk hi

/-- The text of an instruction as a listing of its own. -/
theorem ofLines_text_iff {ls : List String} {i : Instruction} (h : i ∈ (ofLines ls).instructions) :
    (ofLines [i.text]).instructions = [⟨1, i.text, i.command⟩] ↔
      i.text ≠ "" ∧ (∀ c, i.text.toList.head? = some c → isSpace c = false) ∧ Unlabelled i.text.toList := by
  obtain ⟨ws, htidy, hi⟩ := tidy_of_mem_ofLines h
  have htext : i.text.toList = joined ws := by
    rw [hi]
    exact String.toList_ofList
  have hne : i.text ≠ "" ↔ joined ws ≠ [] := by
    rw [← htext, Ne, Ne, String.toList_eq_nil_iff]
  have hown : (⟨1, i.text, i.command⟩ : Instruction) = .ofWords 1 ws := by
    rw [hi]
    rfl
  rw [hne, htext, ← lineWords_joined_iff htidy, instructions_ofLines, hown, ← htext]
  simp only [List.map_cons, List.map_nil, List.zipIdx_singleton, List.filterMap_cons, List.filterMap_nil]
  constructor
  · intro hsame
    cases hws : lineWords i.text.toList with
    | none =>
      rw [hws] at hsame
      cases hsame
    | some ws' =>
      rw [hws] at hsame
      have hjoined : joined ws' = joined ws :=
        String.ofList_injective (congrArg Instruction.text (List.cons.inj hsame).1)
      rw [← htidy.words_joined, ← hjoined, (tidy_of_lineWords hws).words_joined]
  · intro hws
    rw [hws]
    rfl

/-- A program that was read from a listing is read again from its instructions put on the lines of their
numbers, each behind its number as a label, and nothing on the other lines. The text of an instruction
alone is read as the same instruction exactly if it is not empty and begins neither with white space nor
with a label. -/
theorem listings_round_trip (ls : List String) :
    (∀ i ∈ (ofLines ls).instructions, i.line ≤ ls.length) ∧
    (∀ n, (∀ i ∈ (ofLines ls).instructions, i.line ≤ n) → ofLines ((ofLines ls).listing n) = ofLines ls) ∧
    ∀ i ∈ (ofLines ls).instructions,
      ((ofLines [i.text]).instructions = [⟨1, i.text, i.command⟩] ↔
        i.text ≠ "" ∧ (∀ c, i.text.toList.head? = some c → isSpace c = false) ∧ Unlabelled i.text.toList) :=
  ⟨fun _ h => line_le_of_mem_ofLines h, fun _ hn => ofLines_listing ls hn, fun _ h => ofLines_text_iff h⟩

/-- A label alone, two labels, and a word that begins with a no-break space: none of these texts is read
again as it stands. -/
def oddLines : List String := ["1.", "", "7. 1. !", "2.\u00a0! ->", "9. > 02"]

theorem listings_round_trip_odd_lines :
    (∀ i ∈ (ofLines oddLines).instructions, i.line ≤ 5) ∧
      (ofLines oddLines).listing 5 = ["1. ", "", "3. 1. !", "4. \u00a0! ->", "5. > 02"] ∧
      ofLines ["1. ", "", "3. 1. !", "4. \u00a0! ->", "5. > 02"] = ofLines oddLines ∧
      ⟨3, "1. !", .malformed⟩ ∈ (ofLines oddLines).instructions ∧
      (ofLines ["1. !"]).instructions ≠ [⟨1, "1. !", .malformed⟩] := by
  have hlisting : (ofLines oddLines).listing 5 = ["1. ", "", "3. 1. !", "4. \u00a0! ->", "5. > 02"] := by decide +kernel
  obtain ⟨hle, hagain, htext⟩ := listings_round_trip oddLines
  have hmem : (⟨3, "1. !", .malformed⟩ : Instruction) ∈ (ofLines oddLines).instructions := by decide +kernel
  have hround := hagain 5 hle
  rw [hlisting] at hround
  refine ⟨hle, hlisting, hround, hmem, ?_⟩
  intro hsame
  exact ((htext _ hmem).1 hsame).2.2 ['1', '.'] ⟨['1'], by decide, List.all_eq_true.1 rfl, rfl⟩ ⟨[' ', '!'], by decide +kernel⟩

end Program

end TapeMachines.Post
