import TapeMachines.Json.Lexer
/-!
# Reading JSON

A reader takes the tokens one by one. It keeps a stack of the arrays and objects that are open, and
knows what may come next; `parse?` gives the value if the tokens end where one value is complete and
nothing is open.
-/

namespace TapeMachines.Json

/-- An array or object that waits for a value: what it has so far, last first. -/
inductive Frame where
  | items (done : List Json)
  | fields (done : List (Option String × Json)) (key : Option String)

/-- What a reader has just read, or what it needs next. -/
inductive Focus where
  | value
  /-- The first item of an array, or its end. -/
  | firstItem
  /-- The first key of an object, or its end. -/
  | firstKey
  | key (done : List (Option String × Json))
  | colon (done : List (Option String × Json)) (key : Option String)
  | complete (j : Json)

structure Reader where
  focus : Focus
  stack : List Frame

def Reader.start : Reader := ⟨.value, []⟩

def ofText : Option String → Json
  | some s => .str s
  | none => .other

/-- An object, if every key is a text. -/
def ofFields (fields : List (Option String × Json)) : Json :=
  match fields.mapM fun (key, j) => key.map (·, j) with
  | some fields => .obj fields
  | none => .other

def Reader.value (stack : List Frame) : Token → Option Reader
  | .openArr => some ⟨.firstItem, stack⟩
  | .openObj => some ⟨.firstKey, stack⟩
  | .text s => some ⟨.complete (ofText s), stack⟩
  | .scalar j => some ⟨.complete j, stack⟩
  | .closeArr | .closeObj | .comma | .colon => none

/-- A value is complete: it goes where the innermost open array or object waits for it. -/
def Reader.after (j : Json) : List Frame → Token → Option Reader
  | .items done :: stack, .comma => some ⟨.value, .items (j :: done) :: stack⟩
  | .items done :: stack, .closeArr => some ⟨.complete (.arr (j :: done).reverse), stack⟩
  | .fields done key :: stack, .comma => some ⟨.key ((key, j) :: done), stack⟩
  | .fields done key :: stack, .closeObj => some ⟨.complete (ofFields ((key, j) :: done).reverse), stack⟩
  | _, _ => none

def Reader.step (r : Reader) (t : Token) : Option Reader :=
  match r.focus, t with
  | .value, t => Reader.value r.stack t
  | .firstItem, .closeArr => some ⟨.complete (.arr []), r.stack⟩
  | .firstItem, t => Reader.value (.items [] :: r.stack) t
  | .firstKey, .closeObj => some ⟨.complete (.obj []), r.stack⟩
  | .firstKey, .text key => some ⟨.colon [] key, r.stack⟩
  | .key done, .text key => some ⟨.colon done key, r.stack⟩
  | .colon done key, .colon => some ⟨.value, .fields done key :: r.stack⟩
  | .complete j, t => Reader.after j r.stack t
  | _, _ => none

def Reader.result? : Reader → Option Json
  | ⟨.complete j, []⟩ => some j
  | _ => none

def parse? (s : String) : Option Json := do
  let r ← (← tokens? s.toList).foldlM Reader.step Reader.start
  r.result?

end TapeMachines.Json
