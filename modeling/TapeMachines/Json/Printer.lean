import TapeMachines.Json.Basic
/-!
# Writing JSON

One printer for every layout: a layout says what stands between the items of an array or an object
at a depth, and what separates a key from its value. `compact` has no white space; `pretty` puts each
item on a line of its own, indented by two spaces a level, and leaves empty arrays and objects
closed up.
-/

namespace TapeMachines.Json

structure Layout where
  newline : Nat → List Char
  colon : List Char

def Layout.compact : Layout where
  newline _ := []
  colon := [':']

def Layout.pretty : Layout where
  newline depth := '\n' :: List.replicate (2 * depth) ' '
  colon := [':', ' ']

/-! ## Texts -/

def hexDigit (n : Nat) : Char := if n < 10 then Char.ofNat (48 + n) else Char.ofNat (87 + n)

/-- A character inside a text: quotes, backslashes and control characters are escaped. -/
def escapeChar (c : Char) : List Char :=
  if c = '"' then ['\\', '"']
  else if c = '\\' then ['\\', '\\']
  else if c = '\n' then ['\\', 'n']
  else if c = '\r' then ['\\', 'r']
  else if c = '\t' then ['\\', 't']
  else if c.toNat = 0x08 then ['\\', 'b']
  else if c.toNat = 0x0C then ['\\', 'f']
  else if c.toNat < 0x20 then ['\\', 'u', '0', '0', hexDigit (c.toNat / 16), hexDigit (c.toNat % 16)]
  else [c]

def renderText (s : String) : List Char := '"' :: s.toList.flatMap escapeChar ++ ['"']

/-! ## Values -/

mutual

def render (l : Layout) (depth : Nat) : Json → List Char
  | .null | .other => ['n', 'u', 'l', 'l']
  | .bool true => ['t', 'r', 'u', 'e']
  | .bool false => ['f', 'a', 'l', 's', 'e']
  | .int n => (toString n).toList
  | .str s => renderText s
  | .arr [] => ['[', ']']
  | .arr (j :: items) =>
    '[' :: l.newline (depth + 1) ++ render l (depth + 1) j ++ renderItems l (depth + 1) items ++
      l.newline depth ++ [']']
  | .obj [] => ['{', '}']
  | .obj ((key, j) :: fields) =>
    '{' :: l.newline (depth + 1) ++ renderText key ++ l.colon ++ render l (depth + 1) j ++
      renderFields l (depth + 1) fields ++ l.newline depth ++ ['}']

/-- The items after the first, each behind a comma. -/
def renderItems (l : Layout) (depth : Nat) : List Json → List Char
  | [] => []
  | j :: items => ',' :: l.newline depth ++ render l depth j ++ renderItems l depth items

/-- The fields after the first, each behind a comma. -/
def renderFields (l : Layout) (depth : Nat) : List (String × Json) → List Char
  | [] => []
  | (key, j) :: fields =>
    ',' :: l.newline depth ++ renderText key ++ l.colon ++ render l depth j ++ renderFields l depth fields

end

def compact (j : Json) : String := String.ofList (j.render .compact 0)

def pretty (j : Json) : String := String.ofList (j.render .pretty 0)

end TapeMachines.Json
