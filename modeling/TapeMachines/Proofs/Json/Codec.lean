import Mathlib.Data.List.Nodup
import TapeMachines.Json.Codec
import TapeMachines.Proofs.Json.RoundTrip
/-!
# Encoded values

Every decoder gives back what its encoder was given, as long as the integers fit into 64 bits, which is what
`InRange` says of a status and a log entry. What the encoders make is `Plain`, so that `comesBack` takes this
through printed documents.
-/

namespace TapeMachines

namespace Json

/-! ## Scalars -/

/-- An integer of 64 bits with sign. -/
def IsInteger (n : Int) : Prop := -maxInteger - 1 ≤ n ∧ n ≤ maxInteger

instance (n : Int) : Decidable (IsInteger n) := inferInstanceAs (Decidable (_ ∧ _))

@[simp] theorem nat?_int {n : Nat} (h : n ≤ Text.maxNatural) : nat? (.int n) = some n := by
  rw [nat?, if_pos (by omega), Int.toNat_natCast]

@[simp] theorem int?_int {n : Int} (h : IsInteger n) : int? (.int n) = some n := if_pos h

@[simp] theorem bool?_bool (b : Bool) : bool? (.bool b) = some b := rfl

@[simp] theorem str?_str (s : String) : str? (.str s) = some s := rfl

@[simp] theorem char?_ofChar (c : Char) : char? (ofChar c) = some c := by
  simp [char?, ofChar]

/-! ## Records -/

/-- A record with the fields that are asked for is read whole. -/
theorem record?_obj {names : List String} {fields : List (String × Json)} (h : fields.map (·.1) = names)
    (hn : names.Nodup) : record? names (.obj fields) = some fields := by
  have hknown : fields.filter (fun f => f.1 ∈ names) = fields := by
    rw [List.filter_eq_self]
    intro f hf
    rw [← h, decide_eq_true_eq]
    exact List.mem_map_of_mem hf
  show (if ((fields.filter fun f => f.1 ∈ names).map (·.1)).Nodup then some _ else none) = _
  rw [hknown, h, if_pos hn]

/-- A field that holds no value is written as null, which no value is. -/
theorem optionalField?_ofOption {α : Type} {record : List (String × Json)} {name : String} {encode : α → Json}
    {decode : Json → Option α} {value : Option α} (hfield : record.lookup name = some (ofOption encode value))
    (hnull : ∀ a, encode a ≠ .null) (hdecode : ∀ a, decode (encode a) = some a) :
    optionalField? record name decode = some value := by
  unfold optionalField?
  rw [hfield]
  cases value with
  | none => rfl
  | some a =>
    simp only [ofOption]
    split
    · rename_i h
      cases h
    · rename_i h
      exact absurd (Option.some.inj h) (hnull a)
    · rename_i h
      rw [← Option.some.inj h, hdecode a]
      rfl

theorem plain_ofOption {α : Type} {encode : α → Json} (h : ∀ a, (encode a).Plain) (value : Option α) :
    (ofOption encode value).Plain := by
  cases value with
  | none => exact .null
  | some a => exact h a

end Json

open Json

/-! ## Choices -/

theorem Direction.ofJson?_toJson (d : Direction) : ofJson? d.toJson = some d := by cases d <;> rfl

theorem Halt.ofJson?_toJson (h : Halt) : ofJson? h.toJson = some h := by cases h <;> rfl

theorem Kind.ofJson?_toJson (k : Kind) : ofJson? k.toJson = some k := by cases k <;> rfl

/-! ## Rules, log entries and statuses -/

structure Status.InRange (s : Status) : Prop where
  stepCount : s.stepCount ≤ Text.maxNatural
  head : IsInteger s.head
  origin : IsInteger s.origin

structure LogEntry.InRange (e : LogEntry) : Prop where
  step : e.step ≤ Text.maxNatural
  head : IsInteger e.head
  origin : IsInteger e.origin

theorem Turing.Rule.ofJson?_toJson (r : Turing.Rule) : ofJson? r.toJson = some r := by
  rw [Turing.Rule.ofJson?, Turing.Rule.toJson, record?_obj]
  · simp [field?, List.lookup_cons, Direction.ofJson?_toJson]
  · rfl
  · decide

theorem LogEntry.ofJson?_toJson {e : LogEntry} (h : e.InRange) : ofJson? e.toJson = some e := by
  have hhalt {record} (hfield : List.lookup "halt" record = some (ofOption Halt.toJson e.halt)) :
      optionalField? record "halt" Halt.ofJson? = some e.halt :=
    optionalField?_ofOption hfield (fun _ => nofun) Halt.ofJson?_toJson
  rw [LogEntry.ofJson?, LogEntry.toJson, record?_obj]
  · simp [field?, List.lookup_cons, h.step, h.head, h.origin, hhalt]
  · rfl
  · decide

theorem Status.ofJson?_toJson {s : Status} (h : s.InRange) : ofJson? s.toJson = some s := by
  rw [Status.ofJson?, Status.toJson, record?_obj]
  · simp [field?, List.lookup_cons, h.stepCount, h.head, h.origin]
  · rfl
  · decide

/-! ## Documents -/

/-- Printed in one layout or the other and read again, the encoding of a value is decoded to that value. -/
structure Json.ComesBack {α : Type} (encode : α → Json) (decode : Json → Option α) (a : α) : Prop where
  compact : (parse? (encode a).compact).bind decode = some a
  pretty : (parse? (encode a).pretty).bind decode = some a

theorem Json.comesBack {α : Type} {encode : α → Json} {decode : Json → Option α} {a : α} (hplain : (encode a).Plain)
    (h : decode (encode a) = some a) : ComesBack encode decode a := by
  have hparse {l : Layout} (hl : l.Blank) : parse? (String.ofList ((encode a).render l 0)) = some (encode a) := by
    have hdocument : parse? (String.ofList ((encode a).render l 0 ++ [])) = _ := hplain.parse?_render hl nofun
    rwa [List.append_nil] at hdocument
  constructor
  · rw [compact, hparse Layout.blank_compact, Option.bind_some, h]
  · rw [pretty, hparse Layout.blank_pretty, Option.bind_some, h]

theorem Halt.plain_toJson (h : Halt) : h.toJson.Plain := .str h.name

theorem Turing.Rule.plain_toJson (r : Turing.Rule) : r.toJson.Plain := by
  refine .obj ?_
  simp [Plain.str, ofChar, Direction.toJson]

theorem LogEntry.plain_toJson (e : LogEntry) : e.toJson.Plain := by
  refine .obj ?_
  simp [Plain.str, Plain.int, ofChar, plain_ofOption Halt.plain_toJson]

theorem Status.plain_toJson (s : Status) : s.toJson.Plain := by
  refine .obj ?_
  simp [Plain.str, Plain.int, Plain.bool, ofChar]

end TapeMachines
