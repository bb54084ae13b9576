import TapeMachines.Text.Unprintable
/-!
# Quoted text

Messages quote what they cite: texts in double quotes, single characters in single quotes. The
backslash, the quote in use, tab, line ends and the null character are written with a backslash, and
every other character without a visible form of its own by its number in base 16.
-/

namespace TapeMachines.Text

def singleQuote : Char := Char.ofNat 39

def doubleQuote : Char := '"'

/-- The number of a character, as a quoted text writes it. -/
def byNumber (c : Char) : List Char :=
  ['\\', 'u', '{'] ++ Nat.toDigits 16 c.toNat ++ ['}']

/-- A character between two of the quotes `mark`. -/
def quotedChar (mark c : Char) : List Char :=
  if c = '\\' || c = mark then ['\\', c]
  else if c = '\t' then ['\\', 't']
  else if c = '\r' then ['\\', 'r']
  else if c = '\n' then ['\\', 'n']
  else if c.toNat = 0 then ['\\', '0']
  else if isUnprintable c then byNumber c
  else [c]

def quoteWith (mark : Char) (cs : List Char) : String :=
  String.ofList (mark :: cs.flatMap (quotedChar mark) ++ [mark])

def quote (s : String) : String := quoteWith doubleQuote s.toList

def quoteChar (c : Char) : String := quoteWith singleQuote [c]

/-- A list in brackets, with a comma and a space between the items. -/
def bracketed (items : List String) : String := "[" ++ ", ".intercalate items ++ "]"

example : quote "a\tb\"c'" = "\"a\\tb\\\"c'\"" := by decide +kernel

example : quote "\u0301" = "\"\\u\x7b301\x7d\"" := by decide +kernel

example : quoteChar doubleQuote = "'\"'" := by decide +kernel

end TapeMachines.Text
