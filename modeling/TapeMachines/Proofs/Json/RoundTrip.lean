import TapeMachines.Json.Parser
import TapeMachines.Proofs.Json.Lexer
/-!
# Printing and reading JSON

A printed value is cut into the tokens of that value, whatever white space the layout puts between them
(`Plain.lexes`), and a reader who meets these tokens where a value may stand completes that value
(`Plain.reads`). Main statement: `Plain.parse?_render`, by which a printed document reads back as the value it
was printed for.
-/

namespace TapeMachines.Json

/-- A value made of names, integers, texts, arrays and objects, as the encoders make them. -/
inductive Plain : Json → Prop
  | null : Plain .null
  | bool (b : Bool) : Plain (.bool b)
  | int (n : Int) : Plain (.int n)
  | str (s : String) : Plain (.str s)
  | arr {items : List Json} (h : ∀ j ∈ items, Plain j) : Plain (.arr items)
  | obj {fields : List (String × Json)} (h : ∀ f ∈ fields, Plain f.2) : Plain (.obj fields)

/-- Nothing but white space stands between the tokens. -/
structure Layout.Blank (l : Layout) : Prop where
  newline : ∀ depth, ∀ c ∈ l.newline depth, isBlank c = true
  colon : ∃ blanks, l.colon = ':' :: blanks ∧ ∀ c ∈ blanks, isBlank c = true

theorem Layout.blank_compact : Layout.compact.Blank where
  newline := by simp [Layout.compact]
  colon := ⟨[], rfl, by simp⟩

theorem Layout.blank_pretty : Layout.pretty.Blank where
  newline := by
    intro depth c hc
    simp only [Layout.pretty, List.mem_cons, List.mem_replicate] at hc
    rcases hc with rfl | ⟨-, rfl⟩ <;> rfl
  colon := ⟨[' '], rfl, by simp [isBlank]⟩

/-! ## The tokens of a value -/

mutual

def tokens : Json → List Token
  | .null | .other => [.scalar .null]
  | .bool b => [.scalar (.bool b)]
  | .int n => [.scalar (.int n)]
  | .str s => [.text (some s)]
  | .arr [] => [.openArr, .closeArr]
  | .arr (j :: items) => .openArr :: (j.tokens ++ (itemTokens items ++ [.closeArr]))
  | .obj [] => [.openObj, .closeObj]
  | .obj ((key, j) :: fields) =>
    .openObj :: .text (some key) :: .colon :: (j.tokens ++ (fieldTokens fields ++ [.closeObj]))

/-- The items after the first. -/
def itemTokens : List Json → List Token
  | [] => []
  | j :: items => .comma :: (j.tokens ++ itemTokens items)

/-- The fields after the first. -/
def fieldTokens : List (String × Json) → List Token
  | [] => []
  | (key, j) :: fields => .comma :: .text (some key) :: .colon :: (j.tokens ++ fieldTokens fields)

end

/-! ## Cutting a printed value into its tokens -/

section Lexing

variable {l : Layout} {rest : List Char}

/-- Wherever `j` is printed, its tokens are read and then what follows it. -/
def Lexes (l : Layout) (j : Json) : Prop :=
  ∀ depth rest, Ends rest → tokens? (j.render l depth ++ rest) = (tokens? rest).map (j.tokens ++ ·)

theorem ends_cons {c : Char} (h : isWordChar c = false) : Ends (c :: rest) := by
  rintro _ ⟨⟩
  exact h

theorem not_isWordChar_of_isBlank {c : Char} (h : isBlank c = true) : isWordChar c = false := by
  rw [← Bool.not_eq_true]
  intro hword
  have hblank := (not_blank_of_isWordChar hword).1
  rw [h] at hblank
  cases hblank

theorem ends_blanks {blanks : List Char} (h : ∀ c ∈ blanks, isBlank c = true) (hrest : Ends rest) :
    Ends (blanks ++ rest) := by
  cases blanks with
  | nil => exact hrest
  | cons b blanks => exact ends_cons (not_isWordChar_of_isBlank (h b List.mem_cons_self))

theorem lexes_scalar {j : Json} {word : List Char} (hprinted : ∀ depth, j.render l depth = word)
    (htokens : j.tokens = [.scalar j]) (hne : word ≠ []) (hword : ∀ c ∈ word, isWordChar c = true)
    (hj : scalar? word = some j) : Lexes l j := by
  intro depth rest hrest
  rw [hprinted, htokens, tokens?_word hne hword hj hrest]
  rfl

theorem tokens?_field (hl : l.Blank) (key : String) {j : Json} (hj : Lexes l j) (hrest : Ends rest) :
    tokens? (renderText key ++ (l.colon ++ (j.render l depth ++ rest))) =
      (tokens? rest).map fun ts => .text (some key) :: .colon :: (j.tokens ++ ts) := by
  obtain ⟨blanks, hcolon, hblanks⟩ := hl.colon
  rw [tokens?_renderText, hcolon, List.cons_append, tokens?_mark rfl rfl, tokens?_blanks hblanks, hj _ _ hrest,
    Option.map_map, Option.map_map]
  rfl

/-- The items after the first, with the text behind them; a value may stand before them. -/
theorem tokens?_renderItems (hl : l.Blank) (depth : Nat) {items : List Json} (h : ∀ j ∈ items, Lexes l j)
    (hrest : Ends rest) :
    Ends (renderItems l depth items ++ rest) ∧
      tokens? (renderItems l depth items ++ rest) = (tokens? rest).map (itemTokens items ++ ·) := by
  induction items with
  | nil => exact ⟨hrest, Option.map_id'.symm⟩
  | cons j items ih =>
    obtain ⟨hends, hitems⟩ := ih fun j' hj' => h j' (List.mem_cons_of_mem j hj')
    have hj := h j List.mem_cons_self depth _ hends
    refine ⟨ends_cons rfl, ?_⟩
    simp only [renderItems, List.cons_append, List.append_assoc]
    rw [tokens?_mark rfl rfl, tokens?_blanks (hl.newline depth), hj, hitems, Option.map_map, Option.map_map]
    simp only [Function.comp_def, itemTokens, List.cons_append, List.append_assoc]

theorem tokens?_renderFields (hl : l.Blank) (depth : Nat) {fields : List (String × Json)}
    (h : ∀ f ∈ fields, Lexes l f.2) (hrest : Ends rest) :
    Ends (renderFields l depth fields ++ rest) ∧
      tokens? (renderFields l depth fields ++ rest) = (tokens? rest).map (fieldTokens fields ++ ·) := by
  induction fields with
  | nil => exact ⟨hrest, Option.map_id'.symm⟩
  | cons f fields ih =>
    obtain ⟨key, j⟩ := f
    obtain ⟨hends, hfields⟩ := ih fun f' hf' => h f' (List.mem_cons_of_mem _ hf')
    have hj : Lexes l j := h (key, j) List.mem_cons_self
    refine ⟨ends_cons rfl, ?_⟩
    simp only [renderFields, List.cons_append, List.append_assoc]
    rw [tokens?_mark rfl rfl, tokens?_blanks (hl.newline depth), tokens?_field hl key hj hends, hfields, Option.map_map,
      Option.map_map]
    simp only [Function.comp_def, fieldTokens, List.cons_append, List.append_assoc]

/-- The mark that closes an array or an object stands on a line of its own. -/
theorem tokens?_closing (hl : l.Blank) (depth : Nat) {c : Char} {t : Token} (hc : isWordChar c = false)
    (hb : isBlank c = false) (ht : mark? c = some t) (rest : List Char) :
    Ends (l.newline depth ++ c :: rest) ∧ tokens? (l.newline depth ++ c :: rest) = (tokens? rest).map (t :: ·) := by
  refine ⟨ends_blanks (hl.newline depth) (ends_cons hc), ?_⟩
  rw [tokens?_blanks (hl.newline depth), tokens?_mark hb ht]

theorem Plain.lexes (hl : l.Blank) {j : Json} (h : Plain j) : Lexes l j := by
  induction h with
  | null => exact lexes_scalar (fun _ => rfl) rfl (by decide) (List.all_eq_true.1 rfl) rfl
  | bool b => cases b <;> exact lexes_scalar (fun _ => rfl) rfl (by decide) (List.all_eq_true.1 rfl) rfl
  | int n =>
    obtain ⟨hne, hword, hn⟩ := word_toString n
    exact lexes_scalar (fun _ => rfl) rfl hne hword hn
  | str s =>
    intro depth rest _
    exact tokens?_renderText s
  | arr h ih =>
    rename_i items
    intro depth rest _
    cases items with
    | nil =>
      show tokens? ('[' :: ']' :: rest) = _
      rw [tokens?_mark rfl rfl, tokens?_mark rfl rfl, Option.map_map]
      rfl
    | cons j items =>
      obtain ⟨hclose, hclosing⟩ := tokens?_closing hl depth (c := ']') rfl rfl rfl rest
      have hlast : ∀ j' ∈ items, Lexes l j' := fun j' hj' => ih j' (List.mem_cons_of_mem j hj')
      obtain ⟨hends, hitems⟩ := tokens?_renderItems hl (depth + 1) hlast hclose
      simp only [render, List.cons_append, List.append_assoc, List.nil_append]
      rw [tokens?_mark rfl rfl, tokens?_blanks (hl.newline _), ih j List.mem_cons_self _ _ hends, hitems, hclosing]
      simp only [Option.map_map, Function.comp_def, tokens, List.cons_append, List.append_assoc, List.nil_append]
  | obj h ih =>
    rename_i fields
    intro depth rest _
    cases fields with
    | nil =>
      show tokens? ('{' :: '}' :: rest) = _
      rw [tokens?_mark rfl rfl, tokens?_mark rfl rfl, Option.map_map]
      rfl
    | cons f fields =>
      obtain ⟨key, j⟩ := f
      obtain ⟨hclose, hclosing⟩ := tokens?_closing hl depth (c := '}') rfl rfl rfl rest
      have hlast : ∀ f' ∈ fields, Lexes l f'.2 := fun f' hf' => ih f' (List.mem_cons_of_mem _ hf')
      obtain ⟨hends, hfields⟩ := tokens?_renderFields hl (depth + 1) hlast hclose
      have hj : Lexes l j := ih (key, j) List.mem_cons_self
      simp only [render, List.cons_append, List.append_assoc, List.nil_append]
      rw [tokens?_mark rfl rfl, tokens?_blanks (hl.newline _), tokens?_field hl key hj hends, hfields, hclosing]
      simp only [Option.map_map, Function.comp_def, tokens, List.cons_append, List.append_assoc, List.nil_append]

end Lexing

/-! ## Reading the tokens of a value -/

/-- The reader after some tokens. -/
def Reader.after? (r : Reader) (ts : List Token) : Option Reader := ts.foldlM Reader.step r

theorem Reader.after?_append {r r' : Reader} {ts : List Token} (h : r.after? ts = some r') (more : List Token) :
    r.after? (ts ++ more) = r'.after? more := by
  rw [after?] at h
  rw [after?, List.foldlM_append, h]
  rfl

/-- Where a value may stand, the tokens of `j` complete it. -/
def Reads (j : Json) : Prop := ∀ stack, Reader.after? ⟨.value, stack⟩ j.tokens = some ⟨.complete j, stack⟩

/-- The first item of an array is read as any value in it, for no value begins with the mark that ends an
array. -/
theorem Reads.first {j : Json} (h : Reads j) (stack : List Frame) :
    Reader.after? ⟨.firstItem, stack⟩ j.tokens = some ⟨.complete j, .items [] :: stack⟩ := by
  rw [← h]
  cases j with
  | arr items => cases items <;> rfl
  | obj fields =>
    cases fields with
    | nil => rfl
    | cons f fields => rfl
  | null | bool | int | str | other => rfl

theorem after?_itemTokens {items : List Json} (h : ∀ j ∈ items, Reads j) (done : List Json) (first : Json)
    (stack : List Frame) :
    Reader.after? ⟨.complete first, .items done :: stack⟩ (itemTokens items ++ [.closeArr]) =
      some ⟨.complete (.arr (done.reverse ++ first :: items)), stack⟩ := by
  induction items generalizing done first with
  | nil =>
    show some (Reader.mk (.complete (.arr (first :: done).reverse)) stack) = _
    rw [List.reverse_cons]
  | cons j items ih =>
    -- The first item is done when the comma is read, and `j` is the one to be read next.
    have hj := h j List.mem_cons_self (.items (first :: done) :: stack)
    have hrest := ih (fun j' hj' => h j' (List.mem_cons_of_mem j hj')) (first :: done) j
    rw [List.reverse_cons, List.append_assoc] at hrest
    rw [itemTokens, List.cons_append, List.append_assoc]
    show Reader.after? ⟨.value, .items (first :: done) :: stack⟩ _ = _
    rw [Reader.after?_append hj]
    exact hrest

/-- The fields of an object as a reader keeps them. -/
def readFields (fields : List (String × Json)) : List (Option String × Json) := fields.map fun f => (some f.1, f.2)

theorem ofFields_readFields (fields : List (String × Json)) : ofFields (readFields fields) = .obj fields := by
  have hkeys : (readFields fields).mapM (fun f => f.1.map (·, f.2)) = some fields := by
    induction fields with
    | nil => rfl
    | cons f fields ih =>
      rw [readFields] at ih ⊢
      rw [List.map_cons, List.mapM_cons, ih]
      rfl
  unfold ofFields
  split
  · rename_i h
    obtain rfl := Option.some.inj (hkeys.symm.trans h)
    rfl
  · rename_i h
    cases hkeys.symm.trans h

theorem after?_fieldTokens {fields : List (String × Json)} (h : ∀ f ∈ fields, Reads f.2) (done : List (String × Json))
    (key : String) (first : Json) (stack : List Frame) :
    Reader.after? ⟨.complete first, .fields (readFields done) (some key) :: stack⟩ (fieldTokens fields ++ [.closeObj]) =
      some ⟨.complete (.obj (done.reverse ++ (key, first) :: fields)), stack⟩ := by
  induction fields generalizing done key first with
  | nil =>
    show some (Reader.mk (.complete (ofFields (readFields ((key, first) :: done)).reverse)) stack) = _
    have hreverse : (readFields ((key, first) :: done)).reverse = readFields (done.reverse ++ [(key, first)]) := by
      simp [readFields]
    rw [hreverse, ofFields_readFields]
  | cons f fields ih =>
    obtain ⟨key', j⟩ := f
    have hj : Reads j := h (key', j) List.mem_cons_self
    have hrest := ih (fun f' hf' => h f' (List.mem_cons_of_mem _ hf')) ((key, first) :: done) key' j
    rw [List.reverse_cons, List.append_assoc] at hrest
    rw [fieldTokens, List.cons_append, List.cons_append, List.cons_append, List.append_assoc]
    show Reader.after? ⟨.value, .fields (readFields ((key, first) :: done)) (some key') :: stack⟩ _ = _
    rw [Reader.after?_append (hj _)]
    exact hrest

theorem Plain.reads {j : Json} (h : Plain j) : Reads j := by
  induction h with
  | null | bool | int | str =>
    intro stack
    rfl
  | arr h ih =>
    rename_i items
    intro stack
    cases items with
    | nil => rfl
    | cons j items =>
      have hj := (ih j List.mem_cons_self).first stack
      rw [tokens]
      show Reader.after? ⟨.firstItem, stack⟩ _ = _
      rw [Reader.after?_append hj]
      exact after?_itemTokens (fun j' hj' => ih j' (List.mem_cons_of_mem j hj')) [] j stack
  | obj h ih =>
    rename_i fields
    intro stack
    cases fields with
    | nil => rfl
    | cons f fields =>
      obtain ⟨key, j⟩ := f
      have hj : Reads j := ih (key, j) List.mem_cons_self
      rw [tokens]
      show Reader.after? ⟨.value, .fields [] (some key) :: stack⟩ _ = _
      rw [Reader.after?_append (hj _)]
      exact after?_fieldTokens (fun f' hf' => ih f' (List.mem_cons_of_mem _ hf')) [] key j stack

/-! ## Documents -/

/-- A printed document, with white space behind it or not, reads back as the value it was printed for. -/
theorem Plain.parse?_render {j : Json} (h : Plain j) {l : Layout} (hl : l.Blank) {blanks : List Char}
    (hblanks : ∀ c ∈ blanks, isBlank c = true) :
    parse? (String.ofList (j.render l 0 ++ blanks)) = some j := by
  have hends : Ends blanks := by
    have happend : Ends (blanks ++ []) := ends_blanks hblanks nofun
    rwa [List.append_nil] at happend
  have hnone : tokens? blanks = some [] := by
    have hempty : tokens? (blanks ++ []) = tokens? [] := tokens?_blanks hblanks
    rwa [List.append_nil, tokens?] at hempty
  have htokens : tokens? (j.render l 0 ++ blanks) = some j.tokens := by
    rw [h.lexes hl 0 blanks hends, hnone, Option.map_some, List.append_nil]
  rw [parse?, String.toList_ofList, htokens]
  show (Reader.after? ⟨.value, []⟩ j.tokens).bind (fun r => r.result?) = some j
  rw [h.reads []]
  rfl

end TapeMachines.Json
