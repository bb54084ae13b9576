import Mathlib.Data.List.TakeWhile
import TapeMachines.Json.Lexer
import TapeMachines.Json.Printer
/-!
# The tokens of printed texts

One lemma for each kind of token: what `tokens?` does with the text that the printer writes for it, whatever
follows. White space is dropped (`tokens?_blanks`), a text comes back with its escapes undone
(`tokens?_renderText`), and a name or a number ends where a character follows that is part of neither
(`tokens?_word`).
-/

namespace TapeMachines.Json

/-! ## Escaped characters -/

theorem hexValue?_hexDigit {n : Nat} (h : n < 16) : hexValue? (hexDigit n) = some n := by
  have hall : ∀ k : Fin 16, hexValue? (hexDigit k) = some k.val := by decide
  exact hall ⟨n, h⟩

theorem hexPiece?_control {n : Nat} (h : n < 0x20) :
    hexPiece? '0' '0' (hexDigit (n / 16)) (hexDigit (n % 16)) = some (.char (Char.ofNat n)) := by
  have hzero : hexValue? '0' = some 0 := rfl
  have hhigh : hexValue? (hexDigit (n / 16)) = some (n / 16) := hexValue?_hexDigit (by omega)
  have hlow : hexValue? (hexDigit (n % 16)) = some (n % 16) := hexValue?_hexDigit (by omega)
  have hvalue : 4096 * 0 + 256 * 0 + 16 * (n / 16) + n % 16 = n := by omega
  simp only [hexPiece?, hzero, hhigh, hlow, Option.bind_eq_bind, Option.bind_some, hvalue]
  rw [if_neg (by omega)]
  rfl

/-- A character that is written with a backslash and a letter. -/
theorem pieces?_escaped {e c : Char} (he : e ≠ 'u') (h : escaped? e = some c) (rest : List Char) :
    pieces? ('\\' :: e :: rest) = (pieces? rest).map fun p => (.char c :: p.1, p.2) := by
  rw [pieces?]
  · rw [h]
    cases pieces? rest <;> rfl
  · rintro _ _ _ _ _ rfl
    exact absurd rfl he

theorem pieces?_escapeChar (c : Char) (rest : List Char) :
    pieces? (escapeChar c ++ rest) = (pieces? rest).map fun p => (.char c :: p.1, p.2) := by
  have hofNat : ∀ n, c.toNat = n → c = Char.ofNat n := by
    rintro n rfl
    exact c.ofNat_toNat.symm
  unfold escapeChar
  split_ifs with hquote hslash hnewline hreturn htab hback hfeed hcontrol
  · subst hquote
    exact pieces?_escaped (by decide) rfl rest
  · subst hslash
    exact pieces?_escaped (by decide) rfl rest
  · subst hnewline
    exact pieces?_escaped (by decide) rfl rest
  · subst hreturn
    exact pieces?_escaped (by decide) rfl rest
  · subst htab
    exact pieces?_escaped (by decide) rfl rest
  · rw [hofNat 8 hback]
    exact pieces?_escaped (by decide) rfl rest
  · rw [hofNat 12 hfeed]
    exact pieces?_escaped (by decide) rfl rest
  · simp only [List.cons_append, List.nil_append]
    rw [pieces?, hexPiece?_control hcontrol, c.ofNat_toNat]
    cases pieces? rest <;> rfl
  · rw [List.singleton_append, pieces?]
    · rw [if_neg (by simp [hcontrol, hslash])]
      cases pieces? rest <;> rfl
    all_goals simp_all

theorem pieces?_literal (cs rest : List Char) :
    pieces? (cs.flatMap escapeChar ++ '"' :: rest) = some (cs.map .char, rest) := by
  induction cs with
  | nil => rfl
  | cons c cs ih =>
    rw [List.flatMap_cons, List.append_assoc, pieces?_escapeChar, ih]
    rfl

theorem joinPieces?_map_char (cs : List Char) : joinPieces? (cs.map .char) = some cs := by
  induction cs with
  | nil => rfl
  | cons c cs ih =>
    rw [List.map_cons, joinPieces?, ih]
    rfl

/-! ## One token -/

variable {c : Char} {rest : List Char}

theorem tokens?_blank (h : isBlank c = true) : tokens? (c :: rest) = tokens? rest := by
  rw [tokens?, if_pos h]

theorem tokens?_blanks {blanks : List Char} (h : ∀ c ∈ blanks, isBlank c = true) :
    tokens? (blanks ++ rest) = tokens? rest := by
  induction blanks with
  | nil => rfl
  | cons b blanks ih =>
    rw [List.cons_append, tokens?_blank (h b List.mem_cons_self)]
    exact ih fun c hc => h c (List.mem_cons_of_mem b hc)

theorem tokens?_mark {t : Token} (hb : isBlank c = false) (h : mark? c = some t) :
    tokens? (c :: rest) = (tokens? rest).map (t :: ·) := by
  rw [tokens?, if_neg (by simp [hb]), h]

theorem tokens?_renderText (s : String) :
    tokens? (renderText s ++ rest) = (tokens? rest).map (.text (some s) :: ·) := by
  have hliteral : pieces? (s.toList.flatMap escapeChar ++ '"' :: rest) = some (s.toList.map .char, rest) :=
    pieces?_literal _ _
  have htext : renderText s ++ rest = '"' :: (s.toList.flatMap escapeChar ++ '"' :: rest) := by
    simp [renderText]
  rw [htext, tokens?, if_neg (by decide), show mark? '"' = none from rfl]
  simp only [if_true]
  split
  · rename_i h
    rw [hliteral] at h
    cases h
    rw [joinPieces?_map_char, Option.map_some, String.ofList_toList]
  · rename_i h
    rw [hliteral] at h
    cases h

/-- What a name or a number is made of begins no other token. -/
theorem not_blank_of_isWordChar (h : isWordChar c = true) : isBlank c = false ∧ mark? c = none ∧ c ≠ '"' := by
  refine ⟨?_, ?_, ?_⟩
  · rw [← Bool.not_eq_true]
    intro hb
    simp only [isBlank, Bool.or_eq_true, decide_eq_true_eq] at hb
    rcases hb with ((rfl | rfl) | rfl) | rfl <;> cases h
  · unfold mark?
    split <;> first | rfl | cases h
  · rintro rfl
    cases h

/-- No name or number goes on with what follows. -/
def Ends (rest : List Char) : Prop := ∀ c, rest.head? = some c → isWordChar c = false

theorem tokens?_word {word : List Char} {j : Json} (hne : word ≠ []) (hword : ∀ c ∈ word, isWordChar c = true)
    (hj : scalar? word = some j) (hrest : Ends rest) :
    tokens? (word ++ rest) = (tokens? rest).map (.scalar j :: ·) := by
  have htake : rest.takeWhile isWordChar = [] := by
    cases rest with
    | nil => rfl
    | cons c rest => exact List.takeWhile_cons_of_neg (by simp [hrest c rfl])
  have hdrop : rest.dropWhile isWordChar = rest := by
    cases rest with
    | nil => rfl
    | cons c rest => exact List.dropWhile_cons_of_neg (by simp [hrest c rfl])
  obtain ⟨c, word, rfl⟩ := List.exists_cons_of_ne_nil hne
  obtain ⟨hblank, hmark, hquote⟩ := not_blank_of_isWordChar (hword c List.mem_cons_self)
  have hlast : ∀ c ∈ word, isWordChar c = true := fun c hc => hword c (List.mem_cons_of_mem _ hc)
  rw [List.cons_append, tokens?, if_neg (by simp [hblank]), hmark]
  simp only [hquote, if_false, hword c List.mem_cons_self, if_true]
  rw [List.takeWhile_append_of_pos hlast, List.dropWhile_append_of_pos hlast, htake, hdrop, List.append_nil, hj]
  cases tokens? rest <;> rfl

/-! ## Numbers -/

/-- Only zero is written with a zero in front. -/
theorem eq_zero_of_head?_toDigits {n : Nat} (h : (Nat.toDigits 10 n).head? = some '0') : n = 0 := by
  induction n using Nat.strong_induction_on with
  | _ n ih =>
    rcases Nat.lt_or_ge n 10 with hn | hn
    · rw [Nat.toDigits_of_lt_base hn, List.head?_cons, Option.some.injEq] at h
      have hall : ∀ k : Fin 10, k.val.digitChar = '0' → k.val = 0 := by decide
      exact hall ⟨n, hn⟩ h
    · rw [Nat.toDigits_of_base_le (by decide) hn, List.head?_append, Option.or_of_isSome (by simp)] at h
      have hzero := ih (n / 10) (by omega) h
      omega

theorem isDigit_of_mem_toDigits {n : Nat} (h : c ∈ Nat.toDigits 10 n) : c.isDigit = true :=
  Nat.isDigit_of_mem_toDigits (by decide) (by decide) h

theorem isWordChar_of_isDigit (h : c.isDigit = true) : isWordChar c = true := by
  simp [isWordChar, Char.isAlphanum, h]

theorem length_toDigits_of_head? {n : Nat} (h : (Nat.toDigits 10 n).head? = some '0') :
    (Nat.toDigits 10 n).length = 1 := by
  rw [eq_zero_of_head?_toDigits h]
  rfl

theorem takeWhile_toDigits (n : Nat) : (Nat.toDigits 10 n).takeWhile Char.isDigit = Nat.toDigits 10 n :=
  List.takeWhile_eq_self_iff.2 fun _ => isDigit_of_mem_toDigits

theorem dropWhile_toDigits (n : Nat) : (Nat.toDigits 10 n).dropWhile Char.isDigit = [] :=
  List.dropWhile_eq_nil_iff.2 fun _ => isDigit_of_mem_toDigits

theorem head?_toDigits_ne {n : Nat} (hc : c.isDigit = false) : (Nat.toDigits 10 n).head? ≠ some c := by
  intro h
  have hdigit := isDigit_of_mem_toDigits (List.mem_of_head? h)
  rw [hc] at hdigit
  cases hdigit

/-- A natural number is read back from its digits. -/
theorem number?_toDigits (n : Nat) : number? (Nat.toDigits 10 n) = some (.int n) := by
  have hvalue : Text.digitsValue (Nat.toDigits 10 n) = n := Nat.ofDigitChars_ten_toDigits
  have hminus : (Nat.toDigits 10 n).head? ≠ some '-' := head?_toDigits_ne rfl
  have hcanonical := length_toDigits_of_head? (n := n)
  simp only [number?, hminus, if_false, takeWhile_toDigits, dropWhile_toDigits, hvalue]
  rw [if_neg]
  · rfl
  · simpa using hcanonical

/-- A negative number is read back from its sign and digits; the negative zero is no integer. -/
theorem number?_minus_toDigits {n : Nat} (hn : n ≠ 0) : number? ('-' :: Nat.toDigits 10 n) = some (.int (-n)) := by
  have hvalue : Text.digitsValue (Nat.toDigits 10 n) = n := Nat.ofDigitChars_ten_toDigits
  have hcanonical := length_toDigits_of_head? (n := n)
  simp only [number?, List.head?_cons, if_true, List.tail_cons, takeWhile_toDigits, dropWhile_toDigits, hvalue, hn,
    if_false]
  rw [if_neg]
  · rfl
  · simpa using hcanonical

/-- A row of digits, with a sign or not, is none of the three names. -/
theorem scalar?_eq_number? {word : List Char} (h : ∀ c, word.head? = some c → c.isDigit = true ∨ c = '-') :
    scalar? word = number? word := by
  unfold scalar?
  split
  · exact absurd (h 'n' rfl) (by decide)
  · exact absurd (h 't' rfl) (by decide)
  · exact absurd (h 'f' rfl) (by decide)
  · rfl

/-- An integer is printed as a word that is read back as that integer. -/
theorem word_toString (n : Int) :
    (toString n).toList ≠ [] ∧ (∀ c ∈ (toString n).toList, isWordChar c = true) ∧
      scalar? (toString n).toList = some (.int n) := by
  cases n with
  | ofNat n =>
    have htext : (toString (Int.ofNat n)).toList = Nat.toDigits 10 n := by
      show (toString n).toList = _
      rw [Nat.toString_eq_ofList_toDigits, String.toList_ofList]
    rw [htext, scalar?_eq_number? fun c hc => .inl (isDigit_of_mem_toDigits (List.mem_of_head? hc))]
    exact ⟨Nat.toDigits_ne_nil, fun c hc => isWordChar_of_isDigit (isDigit_of_mem_toDigits hc), number?_toDigits n⟩
  | negSucc n =>
    have htext : (toString (Int.negSucc n)).toList = '-' :: Nat.toDigits 10 (n + 1) := by
      show ("-" ++ toString (n + 1)).toList = _
      rw [Nat.toString_eq_ofList_toDigits, String.toList_append, String.toList_ofList (l := Nat.toDigits 10 (n + 1))]
      rfl
    have hhead : ∀ c, ('-' :: Nat.toDigits 10 (n + 1)).head? = some c → c.isDigit = true ∨ c = '-' := by
      rintro c ⟨⟩
      exact .inr rfl
    rw [htext, scalar?_eq_number? hhead]
    refine ⟨List.cons_ne_nil _ _, ?_, number?_minus_toDigits n.succ_ne_zero⟩
    intro c hc
    rcases List.mem_cons.1 hc with rfl | hc
    · rfl
    · exact isWordChar_of_isDigit (isDigit_of_mem_toDigits hc)

end TapeMachines.Json
