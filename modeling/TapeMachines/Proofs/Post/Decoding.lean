import TapeMachines.Proofs.Post.Words
import TapeMachines.Proofs.Text.Lines
import TapeMachines.Proofs.Text.Numeral
/-!
# What a Post line stands for

`Spells ws c` says how a command is written: an opcode and as many numerals as the command has targets.
`ofWords_eq_iff` ties it to `Command.ofWords`, so a line decodes to a command exactly if its words spell it,
and is malformed if they spell none. Main statement: `lines_decode`, for every line of every listing.
-/

namespace TapeMachines.Post

open Text

/-- The opcodes of an act. -/
def Act.opcodes : Act → List (List Char)
  | .right => [['→'], ['-', '>'], ['>']]
  | .left => [['←'], ['<', '-'], ['<']]
  | .mark => [['1'], ['V']]
  | .erase => [['0'], ['X']]

/-- The words `ws` are a way to write the command. No words are a way to write a malformed one. -/
def Spells (ws : List (List Char)) : Command → Prop
  | .perform act next => ∃ opcode operand, ws = [opcode, operand] ∧ opcode ∈ act.opcodes ∧ Denotes operand next
  | .branch erased marked =>
    ∃ first second, ws = [['?'], first, second] ∧ Denotes first erased ∧ Denotes second marked
  | .halt => ws = [['!']]
  | .malformed => False

/-! ## Opcodes and operands -/

theorem Act.ofWord?_eq_some_iff {word : List Char} {act : Act} : Act.ofWord? word = some act ↔ word ∈ act.opcodes := by
  constructor
  · intro h
    unfold Act.ofWord? at h
    split at h <;> cases h <;> decide
  · intro h
    cases act <;> simp only [Act.opcodes, List.mem_cons, List.not_mem_nil, or_false] at h <;>
      rcases h with rfl | rfl | rfl <;> rfl

variable {opcode : List Char} {targets : List Nat} {operands ws : List (List Char)}

theorem mapM_natural?_eq_some_iff : operands.mapM natural? = some targets ↔ List.Forall₂ Denotes operands targets := by
  induction operands generalizing targets with
  | nil => simp [eq_comm]
  | cons word operands ih =>
    rw [List.mapM_cons, List.forall₂_cons_left_iff]
    simp only [Option.bind_eq_bind, Option.bind_eq_some_iff, natural?_eq_some_iff, ih, Option.pure_def,
      Option.some.injEq]
    constructor
    · rintro ⟨n, hn, ns, hns, rfl⟩
      exact ⟨n, ns, hn, hns, rfl⟩
    · rintro ⟨n, ns, hn, hns, rfl⟩
      exact ⟨n, hn, ns, hns, rfl⟩

theorem ofTargets_eq_perform_iff {act : Act} {next : Nat} :
    Command.ofTargets opcode targets = .perform act next ↔ opcode ∈ act.opcodes ∧ targets = [next] := by
  rw [← Act.ofWord?_eq_some_iff]
  unfold Command.ofTargets
  split
  · simp
  · simp
  · rename_i n
    cases Act.ofWord? opcode with
    | none => simp
    | some a => simp
  · rename_i hnext _ _
    refine ⟨nofun, fun h => ?_⟩
    exact absurd h.2 (hnext next)

theorem ofTargets_eq_branch_iff {erased marked : Nat} :
    Command.ofTargets opcode targets = .branch erased marked ↔ opcode = ['?'] ∧ targets = [erased, marked] := by
  unfold Command.ofTargets
  split
  · simp
  · simp
  · cases Act.ofWord? opcode <;> simp
  · rename_i _ hbranch _
    refine ⟨nofun, fun h => ?_⟩
    exact absurd h.2 (hbranch erased marked h.1)

theorem ofTargets_eq_halt_iff : Command.ofTargets opcode targets = .halt ↔ opcode = ['!'] ∧ targets = [] := by
  unfold Command.ofTargets
  split
  · simp
  · simp
  · cases Act.ofWord? opcode <;> simp
  · rename_i _ _ hhalt
    refine ⟨nofun, fun h => ?_⟩
    exact absurd h.2 (hhalt h.1)

/-! ## Commands -/

theorem ofWords_eq_iff {c : Command} (hc : c ≠ .malformed) :
    Command.ofWords ws = c ↔
      ∃ opcode operands targets, ws = opcode :: operands ∧ List.Forall₂ Denotes operands targets ∧
        Command.ofTargets opcode targets = c := by
  constructor
  · rintro rfl
    cases ws with
    | nil => exact absurd rfl hc
    | cons opcode operands =>
      rw [Command.ofWords] at hc ⊢
      cases hm : operands.mapM natural? with
      | none => rw [hm] at hc; exact absurd rfl hc
      | some targets => exact ⟨opcode, operands, targets, rfl, mapM_natural?_eq_some_iff.1 hm, rfl⟩
  · rintro ⟨opcode, operands, targets, rfl, hd, rfl⟩
    rw [Command.ofWords, mapM_natural?_eq_some_iff.2 hd]

theorem ofWords_eq_iff_spells {c : Command} (hc : c ≠ .malformed) : Command.ofWords ws = c ↔ Spells ws c := by
  rw [ofWords_eq_iff hc]
  cases c with
  | perform act next =>
    simp only [ofTargets_eq_perform_iff, Spells]
    constructor
    · rintro ⟨opcode, operands, targets, rfl, hd, ho, rfl⟩
      obtain ⟨operand, hoperand, rfl⟩ : ∃ operand, Denotes operand next ∧ operands = [operand] := by
        simpa [List.forall₂_cons_right_iff] using hd
      exact ⟨opcode, operand, rfl, ho, hoperand⟩
    · rintro ⟨opcode, operand, rfl, ho, hd⟩
      exact ⟨opcode, [operand], [next], rfl, .cons hd .nil, ho, rfl⟩
  | branch erased marked =>
    simp only [ofTargets_eq_branch_iff, Spells]
    constructor
    · rintro ⟨opcode, operands, targets, rfl, hd, rfl, rfl⟩
      cases hd with
      | cons hfirst hrest =>
        cases hrest with
        | cons hsecond hnone =>
          cases hnone
          exact ⟨_, _, rfl, hfirst, hsecond⟩
    · rintro ⟨first, second, rfl, hfirst, hsecond⟩
      exact ⟨_, _, _, rfl, .cons hfirst (.cons hsecond .nil), rfl, rfl⟩
  | halt =>
    simp only [ofTargets_eq_halt_iff, Spells]
    constructor
    · rintro ⟨opcode, operands, targets, rfl, hd, rfl, rfl⟩
      cases hd
      rfl
    · rintro rfl
      exact ⟨_, _, _, rfl, .nil, rfl, rfl⟩
  | malformed => exact absurd rfl hc

theorem ofWords_eq_malformed_iff : Command.ofWords ws = .malformed ↔ ∀ c, ¬Spells ws c := by
  constructor
  · intro h c hs
    have hc : c ≠ .malformed := by
      rintro rfl
      exact hs
    rw [(ofWords_eq_iff_spells hc).2 hs] at h
    exact hc h
  · intro h
    by_contra hc
    exact h _ ((ofWords_eq_iff_spells hc).1 rfl)

theorem text_ofWords (n : Nat) (ws : List (List Char)) :
    (Instruction.ofWords n ws).text = " ".intercalate (ws.map String.ofList) := by
  apply String.toList_injective
  rw [String.toList_intercalate, List.map_map, Instruction.ofWords, String.toList_ofList, joined]
  simp

/-! ## Main theorem -/

/-- The instruction is read from the line: it holds the line's words with single spaces between them and
the command that they spell. -/
def Instruction.ReadFrom (i : Instruction) (line : List Char) : Prop :=
  ∃ ws, (∀ ws', LineWords line ws' ↔ ws' = ws) ∧ i.text = " ".intercalate (ws.map String.ofList) ∧
    (∀ c, c ≠ .malformed → (i.command = c ↔ Spells ws c)) ∧ (i.command = .malformed ↔ ∀ c, ¬Spells ws c)

theorem readFrom_ofWords {line : List Char} (h : lineWords line = some ws) (n : Nat) :
    (Instruction.ofWords n ws).ReadFrom line := by
  refine ⟨ws, ?_, text_ofWords n ws, ?_, ofWords_eq_malformed_iff⟩
  · intro ws'
    rw [← lineWords_eq_some_iff, h, Option.some.injEq, eq_comm]
  · exact fun c hc => ofWords_eq_iff_spells hc

/-- The lines that are not all white space, with their positions, and the instructions of a listing. -/
theorem forall₂_readFrom (ls : List String) :
    List.Forall₂ (fun (line, n) i => i.line = n ∧ i.ReadFrom line.toList)
      ((ls.zipIdx 1).filter fun (line, _) => line.toList.any fun c => !isSpace c)
      (Program.ofLines ls).instructions := by
  rw [instructions_ofLines, List.zipIdx_map, List.filterMap_map]
  refine forall₂_filter_filterMap ?_ ?_ _
  · rintro ⟨line, n⟩
    simp [lineWords_eq_none_iff]
  · rintro ⟨line, n⟩ i hi
    obtain ⟨ws, hws, rfl⟩ := Option.map_eq_some_iff.1 hi
    exact ⟨rfl, readFrom_ofWords hws n⟩

theorem ofLines_set_congr {line line' : List Char} (h : lineWords line = lineWords line') (ls : List String) (i : Nat) :
    Program.ofLines (ls.set i (String.ofList line)) = Program.ofLines (ls.set i (String.ofList line')) := by
  refine ofLines_congr ?_
  simp only [List.map_set, String.toList_ofList, h]

/-- The instructions of a listing are those of its lines that are not all white space, in order, each
with its line's position and words, and with the command that these words spell. A label before a line
without one, or other digits in a label, leave the program as it was. -/
theorem lines_decode (ls : List String) :
    List.Forall₂ (fun (line, n) i => i.line = n ∧ i.ReadFrom line.toList)
      ((ls.zipIdx 1).filter fun (line, _) => line.toList.any fun c => !isSpace c)
      (Program.ofLines ls).instructions ∧
    (∀ i before label line, (∀ c ∈ before, isSpace c = true) → IsLabel label → Unlabelled line →
      (∃ c, line.head? = some c ∧ isSpace c = false) →
      Program.ofLines (ls.set i (String.ofList (before ++ (label ++ line)))) =
        Program.ofLines (ls.set i (String.ofList (before ++ line)))) ∧
    ∀ i before label label' rest, (∀ c ∈ before, isSpace c = true) → IsLabel label → IsLabel label' →
      Program.ofLines (ls.set i (String.ofList (before ++ (label ++ rest)))) =
        Program.ofLines (ls.set i (String.ofList (before ++ (label' ++ rest)))) := by
  refine ⟨forall₂_readFrom ls, ?_, ?_⟩
  · intro i before label line hb hl hu hhead
    refine ofLines_set_congr ?_ ls i
    rw [lineWords_label hb hl, lineWords_unlabelled hb hhead hu]
  · intro i before label label' rest hb hl hl'
    refine ofLines_set_congr ?_ ls i
    rw [lineWords_label hb hl, lineWords_label hb hl']

/-- A line that begins with the opcode `1` after a no-break space gets a label, and the label of a line
with two of them is changed. -/
theorem lines_decode_opcode_like_label :
    let before := ['\u00a0', ' ']
    let line := "1 .5".toList
    let rest := "0. X +02".toList
    (∀ c ∈ before, isSpace c = true) ∧ Unlabelled line ∧ IsLabel ['7', '.'] ∧ IsLabel ['0', '1', '.'] ∧
      Program.ofLines ["!", String.ofList (before ++ (['7', '.'] ++ line))] =
        Program.ofLines ["!", String.ofList (before ++ line)] ∧
      Program.ofLines ["!", String.ofList (before ++ (['7', '.'] ++ rest))] =
        Program.ofLines ["!", String.ofList (before ++ (['0', '1', '.'] ++ rest))] := by
  intro before line rest
  have hb : ∀ c ∈ before, isSpace c = true := List.all_eq_true.1 rfl
  have hu : Unlabelled line := by decide
  have hshort : IsLabel ['7', '.'] := ⟨['7'], by decide, List.all_eq_true.1 rfl, rfl⟩
  have hlong : IsLabel ['0', '1', '.'] := ⟨['0', '1'], by decide, List.all_eq_true.1 rfl, rfl⟩
  obtain ⟨-, hput, hchange⟩ := lines_decode ["!", ""]
  exact ⟨hb, hu, hshort, hlong, hput 1 before _ line hb hshort hu ⟨'1', rfl, by decide⟩,
    hchange 1 before _ _ rest hb hshort hlong⟩

end TapeMachines.Post
