/-!
# JSON values

The values that statuses, log entries and rules are exchanged as. Fields keep their order. Numbers
are integers, and texts are sequences of characters; `other` stands for everything else that is well
formed JSON: a number with a fraction or an exponent, a negative zero, a text with half of a
surrogate pair, and an object with such a text as a key. No encoder makes it.
-/

namespace TapeMachines

inductive Json where
  | null
  | bool (b : Bool)
  | int (n : Int)
  | str (s : String)
  | arr (items : List Json)
  | obj (fields : List (String × Json))
  | other

end TapeMachines
