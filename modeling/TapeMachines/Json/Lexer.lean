import TapeMachines.Json.Basic
import TapeMachines.Text.Numeral
/-!
# The tokens of a JSON text

A text is cut into brackets, commas and colons, string literals, and words: maximal runs of the
characters that names and numbers are made of. White space between tokens is dropped.
-/

namespace TapeMachines.Json

inductive Token where
  | openArr | closeArr | openObj | closeObj | comma | colon
  /-- A string literal; `none` if it has half of a surrogate pair. -/
  | text (s : Option String)
  /-- A name or a number. -/
  | scalar (j : Json)

/-! ## String literals -/

/-- What a string literal is made of: characters, and halves of surrogate pairs. -/
inductive Piece where
  | char (c : Char)
  | half (n : Nat)

def hexValue? (c : Char) : Option Nat :=
  if '0' ≤ c ∧ c ≤ '9' then some (c.toNat - 48)
  else if 'a' ≤ c ∧ c ≤ 'f' then some (c.toNat - 87)
  else if 'A' ≤ c ∧ c ≤ 'F' then some (c.toNat - 55)
  else none

/-- The piece that four digits in base 16 stand for. -/
def hexPiece? (a b c d : Char) : Option Piece := do
  let n := 4096 * (← hexValue? a) + 256 * (← hexValue? b) + 16 * (← hexValue? c) + (← hexValue? d)
  return if 0xD800 ≤ n ∧ n ≤ 0xDFFF then .half n else .char (Char.ofNat n)

def escaped? : Char → Option Char
  | '"' => some '"'
  | '\\' => some '\\'
  | '/' => some '/'
  | 'b' => some (Char.ofNat 0x08)
  | 'f' => some (Char.ofNat 0x0C)
  | 'n' => some '\n'
  | 'r' => some '\r'
  | 't' => some '\t'
  | _ => none

/-- The pieces up to the closing quote, and what follows it. -/
def pieces? : List Char → Option (List Piece × List Char)
  | [] => none
  | '"' :: rest => some ([], rest)
  | '\\' :: 'u' :: a :: b :: c :: d :: rest =>
    match hexPiece? a b c d, pieces? rest with
    | some piece, some (pieces, after) => some (piece :: pieces, after)
    | _, _ => none
  | '\\' :: e :: rest =>
    match escaped? e, pieces? rest with
    | some c, some (pieces, after) => some (.char c :: pieces, after)
    | _, _ => none
  | c :: rest =>
    if c.toNat < 0x20 ∨ c = '\\' then none
    else
      match pieces? rest with
      | some (pieces, after) => some (.char c :: pieces, after)
      | none => none

/-- The characters of a literal, unless half of a pair stands alone. -/
def joinPieces? : List Piece → Option (List Char)
  | [] => some []
  | .char c :: rest => (joinPieces? rest).map (c :: ·)
  | .half high :: .half low :: rest =>
    if high < 0xDC00 ∧ 0xDC00 ≤ low then
      (joinPieces? rest).map (Char.ofNat (0x10000 + 1024 * (high - 0xD800) + (low - 0xDC00)) :: ·)
    else none
  | .half _ :: _ => none

/-! ## Names and numbers -/

/-- One or more digits. -/
def isDigits (cs : List Char) : Bool := !cs.isEmpty && cs.all Char.isDigit

/-- The exponent of a number from its mark on, or nothing. -/
def isExponent : List Char → Bool
  | [] => true
  | e :: sign :: digits =>
    (e = 'e' || e = 'E') && (isDigits (sign :: digits) || ((sign = '+' || sign = '-') && isDigits digits))
  | _ => false

/-- What may follow the digits of an integer to make it another number. -/
def isFraction : List Char → Bool
  | '.' :: rest => isDigits (rest.takeWhile Char.isDigit) && isExponent (rest.dropWhile Char.isDigit)
  | rest => !rest.isEmpty && isExponent rest

/-- The value of a number, which has no leading zeros. -/
def number? (word : List Char) : Option Json :=
  let negative := word.head? = some '-'
  let body := if negative then word.tail else word
  let digits := body.takeWhile Char.isDigit
  let rest := body.dropWhile Char.isDigit
  if digits.isEmpty || (digits.head? = some '0' && digits.length ≠ 1) then none
  else if rest.isEmpty then
    let n := Text.digitsValue digits
    if negative then some (if n = 0 then .other else .int (-(n : Int))) else some (.int n)
  else if isFraction rest then some .other
  else none

def scalar? : List Char → Option Json
  | ['n', 'u', 'l', 'l'] => some .null
  | ['t', 'r', 'u', 'e'] => some (.bool true)
  | ['f', 'a', 'l', 's', 'e'] => some (.bool false)
  | word => number? word

/-! ## Tokens -/

def isBlank (c : Char) : Bool := c = ' ' || c = '\n' || c = '\t' || c = '\r'

def isWordChar (c : Char) : Bool := c.isAlphanum || c = '+' || c = '-' || c = '.'

def mark? : Char → Option Token
  | '[' => some .openArr
  | ']' => some .closeArr
  | '{' => some .openObj
  | '}' => some .closeObj
  | ',' => some .comma
  | ':' => some .colon
  | _ => none

theorem length_of_pieces? {cs after : List Char} {ps : List Piece} (h : pieces? cs = some (ps, after)) :
    after.length < cs.length := by
  fun_induction pieces? cs generalizing ps after with
  | case1 => cases h
  | case2 rest => cases h; exact Nat.lt_succ_self _
  | case3 a b c d rest piece pieces after' hr hp ih =>
    cases h; have := ih hr; simp only [List.length_cons]; omega
  | case5 e rest _ c pieces after' hr he ih =>
    cases h; have := ih hr; simp only [List.length_cons]; omega
  | case8 c rest _ _ _ hc pieces after' hr ih =>
    cases h; have := ih hr; simp only [List.length_cons]; omega
  | _ => simp_all

theorem length_dropWhile_le (p : Char → Bool) (cs : List Char) : (cs.dropWhile p).length ≤ cs.length :=
  (List.dropWhile_sublist p).length_le

def tokens? (cs : List Char) : Option (List Token) :=
  match cs with
  | [] => some []
  | c :: rest =>
    if isBlank c then tokens? rest
    else
      match mark? c with
      | some t => (tokens? rest).map (t :: ·)
      | none =>
        if c = '"' then
          match h : pieces? rest with
          | some (ps, after) =>
            have := length_of_pieces? h
            (tokens? after).map (.text ((joinPieces? ps).map String.ofList) :: ·)
          | none => none
        else if isWordChar c then
          have := length_dropWhile_le isWordChar rest
          match scalar? (c :: rest.takeWhile isWordChar), tokens? (rest.dropWhile isWordChar) with
          | some j, some ts => some (.scalar j :: ts)
          | _, _ => none
        else none
  termination_by cs.length

end TapeMachines.Json
