import TapeMachines.Proofs.Snapshots
import TapeMachines.Proofs.Text.Bits
/-!
# The alphabet of a Post machine

An input holds the symbols `0` and `1`, a command writes no other, and a reset changes no cell: so every cell of the
tape is one of the two after any calls (`isBinary_of_reaches`). The text of a status is therefore an input that is
never refused. It leaves out only blanks on both sides of the window, and a tape seeded from it has the same cells from
its own position 0 on (`get_ofList_render`). Main statement: `binary_tape_reloads`.
-/

namespace TapeMachines

open Text

/-- Every cell is erased or marked. -/
def Tape.IsBinary (t : Tape) : Prop := ∀ p, t.get p = '0' ∨ t.get p = '1'

namespace Tape

variable {t : Tape}

theorem isBinary_ofList {input : List Char} (h : IsBits input) : (ofList Post.blank input).IsBinary := by
  intro p
  rw [get_ofList]
  split
  · cases hc : input[p.toNat]? with
    | none => exact .inl rfl
    | some c => exact h c (List.mem_of_getElem? hc)
  · exact .inl rfl

theorem IsBinary.perform (h : t.IsBinary) {write : Option Char} (hw : ∀ c, write = some c → c = '0' ∨ c = '1')
    (move : Direction) : (t.perform write move).IsBinary := by
  intro p
  cases write with
  | none =>
    rw [get_perform_none]
    exact h p
  | some c =>
    rw [get_perform_some, Function.update_apply]
    split
    · exact hw c rfl
    · exact h p

theorem IsBinary.rewind (h : t.IsBinary) : t.rewind.IsBinary := by
  intro p
  rw [get_rewind]
  exact h p

theorem IsBinary.render (h : t.IsBinary) : IsBits t.render := by
  intro c hc
  rw [render_eq_stretch] at hc
  obtain ⟨p, -, -, rfl⟩ := mem_stretch.1 hc
  exact h p

end Tape

namespace Post

variable {p : Program} {m : Machine Nat}

theorem Act.write?_isBit {act : Act} {c : Char} (h : act.write? = some c) : c = '0' ∨ c = '1' := by
  cases act <;> cases h
  · exact .inl rfl
  · exact .inr rfl

theorem Program.write_isBit {line next : Nat} {read : Char} {text : String} {write : Option Char} {move : Direction}
    (h : p.order line read = .go text write move next) : ∀ c, write = some c → c = '0' ∨ c = '1' := by
  obtain ⟨i, -, -, ⟨act, -, rfl, -⟩ | ⟨_, _, -, rfl, -, -⟩⟩ := order_go_cases h
  · exact fun _ => Act.write?_isBit
  · intro c hc
    cases hc

theorem isBits_iff_admits {input : List Char} : IsBits input ↔ ∀ c ∈ input, p.automaton.admits c = true :=
  forall₂_congr fun _ _ => isSymbol_iff.symm

theorem isBinary_of_reaches (h : p.automaton.Reaches m) : m.tape.IsBinary := by
  apply h.inv (I := fun m => m.tape.IsBinary)
  · intro input hi
    exact Tape.isBinary_ofList (isBits_iff_admits.2 hi)
  · intro m hm hb
    refine m.next_cases (fun _ => hb) (fun _ _ _ _ => hb) ?_
    intro text write move next _ ho
    rw [hm.unit] at ho
    exact hb.perform (Program.write_isBit ho) move
  · intro m input hm hi _
    have hbinary := Tape.isBinary_ofList (isBits_iff_admits.2 hi)
    rwa [Machine.withTape, hm.unit]
  · intro m hm hb
    rw [Machine.reset, hm.unit]
    exact hb.rewind

/-! ## Snapshots -/

theorem status_tape (hu : m.unit = p.automaton) : m.status.tape = String.ofList m.tape.render := by
  rw [Machine.status, hu]
  rfl

theorem status_origin (hu : m.unit = p.automaton) : m.status.origin = m.tape.leftmost := by
  rw [Machine.status, hu]
  rfl

/-- The text is not empty and holds no symbol but the two. -/
def BinaryText (text : String) : Prop := text ≠ "" ∧ IsBits text.toList

theorem binaryText_render {t : Tape} (h : t.IsBinary) : BinaryText (String.ofList t.render) := by
  rw [BinaryText, Ne, ← String.toList_eq_nil_iff, String.toList_ofList]
  exact ⟨t.render_ne_nil, h.render⟩

/-- A log entry shows the tape that a step left, and so a tape that some calls lead to. -/
theorem binaryText_of_mem_log (h : p.automaton.Reaches m) {e : LogEntry} (he : e ∈ m.log) : BinaryText e.tape := by
  obtain ⟨i, hi⟩ := Array.getElem?_of_mem he
  obtain ⟨m₁, hl⟩ := Machine.exists_logs h i e hi
  have htape : e.tape = String.ofList m₁.next.tape.render := congrArg Snapshot.tape hl.snapshot
  rw [htape]
  exact binaryText_render (isBinary_of_reaches hl.reached.next)

/-- `m'` is `m` with the text of its own status for a new tape. -/
structure Reloads (m m' : Machine Nat) : Prop where
  loaded : m.load m.status.tape = .ok m'
  tape : m'.status.tape = m.status.tape
  head : m'.status.head = 0
  origin : m'.status.origin = 0
  get : ∀ i, m'.tape.get i = m.tape.get (m.status.origin + i)

theorem reloads_withTape (h : p.automaton.Reaches m) : Reloads m (m.withTape m.tape.render) where
  loaded := by
    rw [status_tape h.unit, Machine.load_eq_ok_iff, String.toList_ofList, h.unit]
    exact ⟨isBits_iff_admits.1 (isBinary_of_reaches h).render, rfl⟩
  tape := by
    have hu : (m.withTape m.tape.render).unit = p.automaton := h.unit
    rw [status_tape hu, status_tape h.unit]
    exact congrArg String.ofList (Tape.render_ofList m.tape.render_ne_nil)
  head := Tape.head_ofList _ m.tape.render
  origin := by
    have hu : (m.withTape m.tape.render).unit = p.automaton := h.unit
    rw [status_origin hu]
    exact Tape.leftmost_ofList _ m.tape.render
  get i := by
    have hblank : m.unit.blank = m.tape.blank := by
      rw [h.unit]
      exact ((TapeMachines.Program.post p).blank_of_reaches h).symm
    rw [Machine.withTape, hblank, status_origin h.unit]
    exact m.tape.get_ofList_render i

/-! ## Main theorem -/

/-- After any calls the cells, the text of the status and those of the log are binary, and the text of the status is
accepted as a new tape, which shows that text again and holds the cells from position 0 on. -/
theorem binary_tape_reloads (p : Program) (m : Machine Nat) (h : p.automaton.Reaches m) :
    m.tape.IsBinary ∧ BinaryText m.status.tape ∧ (∀ e ∈ m.log, BinaryText e.tape) ∧ ∃ m', Reloads m m' := by
  refine ⟨isBinary_of_reaches h, ?_, fun e => binaryText_of_mem_log h, _, reloads_withTape h⟩
  rw [status_tape h.unit]
  exact binaryText_render (isBinary_of_reaches h)

/-- A tape grown to both sides, with erased cells at both its ends, after another tape was refused. -/
theorem binary_tape_reloads_grown :
    let p : Program := ⟨[⟨1, "<- 2", .perform .left 2⟩, ⟨2, "? 3 2", .branch 3 2⟩, ⟨3, "-> 4", .perform .right 4⟩,
      ⟨4, "X 5", .perform .erase 5⟩, ⟨5, "-> 6", .perform .right 6⟩, ⟨6, "V 7", .perform .mark 7⟩,
      ⟨7, "-> 8", .perform .right 8⟩]⟩
    ∃ m m', p.automaton.Reaches m ∧ (m.status.tape = "0010" ∧ m.status.origin = -1) ∧
      m.tape.IsBinary ∧ BinaryText m.status.tape ∧ (∀ e ∈ m.log, BinaryText e.tape) ∧ Reloads m m' := by
  intro p
  have h : p.automaton.Reaches ((p.automaton.on ['1']).afterAll [.run 5, .load "12", .run 9]) :=
    ⟨"1", _, [.run 5, .load "12", .run 9], rfl, rfl⟩
  obtain ⟨hcells, hstatus, hlog, m', hm'⟩ := binary_tape_reloads p _ h
  exact ⟨_, m', h, by decide, hcells, hstatus, hlog, hm'⟩

end Post

end TapeMachines
