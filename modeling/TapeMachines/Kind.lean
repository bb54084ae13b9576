/-!
# The two kinds of machine

A Post machine marks and erases cells by numbered commands; a Turing machine follows a table of
rules. Each kind has a name for the command line and messages, and a file extension.
-/

namespace TapeMachines

inductive Kind where
  | post | turing
  deriving DecidableEq, Repr

namespace Kind

def name : Kind → String
  | .post => "post"
  | .turing => "turing"

def extension : Kind → String
  | .post => "post"
  | .turing => "tur"

def ofName? : String → Option Kind
  | "post" => some .post
  | "turing" => some .turing
  | _ => none

end Kind

end TapeMachines
