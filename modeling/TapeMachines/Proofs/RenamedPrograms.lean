import Mathlib.Data.Set.Function
import Mathlib.Logic.Equiv.Basic
import TapeMachines.Proofs.Post.Lookup
import TapeMachines.Proofs.Renaming
import TapeMachines.Text.Numeral
import TapeMachines.Turing.Automaton
/-!
# Programs under other names

The lines of a Post program may be renumbered, and the states and symbols of a Turing program renamed, without
a change in what it does: a look-up finds the same instruction or rule under its new names. Main statement:
`renamed_programs_in_lockstep`.
-/

namespace TapeMachines

/-! ## Post programs -/

namespace Post

def Command.map (f : Nat → Nat) : Command → Command
  | .perform act next => .perform act (f next)
  | .branch erased marked => .branch (f erased) (f marked)
  | .halt => .halt
  | .malformed => .malformed

/-- The instruction with another line and other targets; the text stays. -/
def Instruction.renumbered (f : Nat → Nat) (i : Instruction) : Instruction := ⟨f i.line, i.text, i.command.map f⟩

def Program.renumbered (f : Nat → Nat) (p : Program) : Program := ⟨p.instructions.map (Instruction.renumbered f)⟩

/-- Lines have other numbers; symbols and texts stay. -/
def renumbering (f : Nat → Nat) : Renaming Nat := ⟨f, id, Eq⟩

/-- The program begins in `lines`, and all its lines and targets are there. -/
structure Program.Within (lines : Set Nat) (p : Program) : Prop where
  first : firstLine ∈ lines
  line : ∀ i ∈ p.instructions, i.line ∈ lines
  target : ∀ i ∈ p.instructions, ∀ n ∈ i.command.targets, n ∈ lines

namespace Program

variable {p : Program} {lines : Set Nat} {f : Nat → Nat}

theorem distinctLines_renumbered (hp : p.DistinctLines) (hl : p.Within lines) (hf : Set.InjOn f lines) :
    (p.renumbered f).DistinctLines := by
  have hlines : (p.instructions.map (Instruction.renumbered f)).map (·.line) = (p.instructions.map (·.line)).map f := by
    rw [List.map_map, List.map_map]
    rfl
  rw [DistinctLines, renumbered, hlines]
  refine hp.map_on ?_
  intro n hn k hk
  obtain ⟨i, hi, rfl⟩ := List.mem_map.1 hn
  obtain ⟨j, hj, rfl⟩ := List.mem_map.1 hk
  exact hf (hl.line i hi) (hl.line j hj)

/-- Where the look-up goes by place in one of the programs, it may go by number in the other. -/
theorem find?_renumbered (hp : p.DistinctLines) (hl : p.Within lines) (hf : Set.InjOn f lines) {n : Nat}
    (hn : n ∈ lines) : (p.renumbered f).find? (f n) = (p.find? n).map (Instruction.renumbered f) := by
  ext i'
  rw [find?_eq_some_iff (distinctLines_renumbered hp hl hf), Option.map_eq_some_iff, renumbered, List.mem_map]
  constructor
  · rintro ⟨⟨i, hi, rfl⟩, hline⟩
    exact ⟨i, (find?_eq_some_iff hp).2 ⟨hi, hf (hl.line i hi) hn hline⟩, rfl⟩
  · rintro ⟨i, hi, rfl⟩
    exact ⟨⟨i, mem_of_find? hi, rfl⟩, congrArg f (line_of_find? hi)⟩

theorem order_renumbered (hp : p.DistinctLines) (hl : p.Within lines) (hf : Set.InjOn f lines) {n : Nat}
    (hn : n ∈ lines) (c : Char) : (p.order n c).Renamed (renumbering f) ((p.renumbered f).order (f n) c) := by
  rw [order, order, find?_renumbered hp hl hf hn]
  cases p.find? n with
  | none => exact .stop rfl
  | some i =>
    obtain ⟨line, text, command⟩ := i
    cases command with
    | perform act next =>
      have hgo : (Order.go text act.write? act.move next).Renamed (renumbering f)
          (.go text (act.write?.map id) act.move (f next)) := .go rfl
      rwa [Option.map_id] at hgo
    | branch erased marked =>
      have hnext : f (if c = blank then erased else marked) = if c = blank then f erased else f marked :=
        apply_ite f _ _ _
      have hgo : (Order.go text none .stay (if c = blank then erased else marked)).Renamed (renumbering f)
          (.go text none .stay (f (if c = blank then erased else marked))) := .go rfl
      rwa [hnext] at hgo
    | halt => exact .stop rfl
    | malformed => exact .stop rfl

theorem renames_renumbered (hp : p.DistinctLines) (hl : p.Within lines) (hf : Set.InjOn f lines)
    (hone : f firstLine = firstLine) :
    p.automaton.Renames (renumbering f) (· ∈ lines) (p.renumbered f).automaton where
  confined := by
    refine ⟨hl.first, ?_⟩
    intro n n' c text write move _ ho
    obtain ⟨i, hi, -, htarget⟩ := order_eq_go ho
    exact hl.target i (mem_of_find? hi) n' htarget
  blank := rfl
  initial := hone.symm
  label := rfl
  order _ c hn := order_renumbered hp hl hf hn c
  admits _ := rfl
  shows t := by
    show ((t.map id).render, (t.map id).leftmost) = (t.render.map id, t.leftmost)
    rw [t.map_id, List.map_id]
  restart t _ := (t.map_rewind id).symm

end Program

end Post

/-! ## Turing programs -/

namespace Turing

def Rule.renamed (g : String → String) (h : Char → Char) (r : Rule) : Rule :=
  ⟨g r.state, h r.read, g r.next, h r.write, r.move⟩

def Program.renamed (g : String → String) (h : Char → Char) (p : Program) : Program :=
  ⟨p.rules.map (Rule.renamed g h), p.ignored⟩

/-- States and symbols have other names. An instruction is a rule of `p`, with its own names and with the other
ones, or is missing from both logs. -/
def Program.renaming (p : Program) (g : String → String) (h : Char → Char) : Renaming String where
  control := g
  symbol := h
  instruction text text' := text = "" ∧ text' = "" ∨ ∃ r ∈ p.rules, text = r.text ∧ text' = (r.renamed g h).text

namespace Program

variable {p : Program} {g : String → String} {h : Char → Char}

theorem find?_renamed (hg : Function.Injective g) (hh : Function.Injective h) (s : String) (c : Char) :
    (p.renamed g h).find? (g s) (h c) = (p.find? s c).map (Rule.renamed g h) := by
  simp only [find?, renamed, List.find?_map, Function.comp_def, Rule.renamed, hg.eq_iff, hh.eq_iff]

theorem order_renamed (hg : Function.Injective g) (hh : Function.Injective h) (s : String) (c : Char) :
    (p.order s c).Renamed (p.renaming g h) ((p.renamed g h).order (g s) (h c)) := by
  rw [order, order, find?_renamed hg hh]
  cases hr : p.find? s c with
  | none => exact .stop (.inl ⟨rfl, rfl⟩)
  | some r => exact .go (.inr ⟨r, List.mem_of_find?_eq_some hr, rfl, rfl⟩)

theorem renames_renamed (hg : Function.Injective g) (hstart : g startState = startState) (hh : Function.Injective h)
    (hblank : h blank = blank) :
    p.automaton.Renames (p.renaming g h) (fun _ => True) (p.renamed g h).automaton where
  confined := ⟨trivial, fun _ _ => trivial⟩
  blank := hblank.symm
  initial := hstart.symm
  label := rfl
  order s c _ := order_renamed hg hh s c
  admits _ := rfl
  shows t := by
    show ((t.map h).contents, (t.map h).contentsOrigin) = _
    rw [t.contents_map hh, t.contentsOrigin_map hh]
    rfl
  restart t input := by
    show Tape.ofList blank (input.map h) = (Tape.ofList blank input).map h
    rw [Tape.map_ofList, hblank]

end Program

end Turing

/-! ## Main theorem -/

/-- Renumber a Post program that repeats no line, in any way that leaves line 1 and makes no two lines one; it
is enough if that holds of the numbers below `2 ^ 64`, where those of a listing are. Rename the states and the
symbols of a Turing program, but the start and the blank, in any way that makes no two of them one. On every
input, under its new names, the machine of the new program is then after any calls where the old one is, with
the same head, halt and counts, and with every entry of the log but for the names. -/
theorem renamed_programs_in_lockstep :
    (∀ (p : Post.Program) (lines : Set Nat) (f : Nat → Nat), p.DistinctLines → p.Within lines →
      Set.InjOn f lines → f 1 = 1 → ∀ input : String, (∀ c ∈ input.toList, c = '0' ∨ c = '1') →
        ∃ m m', p.automaton.start input = .ok m ∧ (p.renumbered f).automaton.start input = .ok m' ∧
          ∀ calls, (m.afterAll calls).Renamed (Post.renumbering f) (m'.afterAll calls)) ∧
    (∀ (p : Turing.Program) (g : String → String) (h : Char → Char), Function.Injective g → g "0" = "0" →
      Function.Injective h → h '_' = '_' → ∀ input : String,
        ∃ m m', p.automaton.start input = .ok m ∧ (p.renamed g h).automaton.start (input.map h) = .ok m' ∧
          ∀ calls, (m.afterAll calls).Renamed (p.renaming g h) (m'.afterAll (calls.map (Call.map h)))) := by
  constructor
  · intro p lines f hp hl hf hone input hi
    have hadmits : ∀ c ∈ input.toList, p.automaton.admits c = true := by
      intro c hc
      rcases hi c hc with rfl | rfl <;> rfl
    obtain ⟨m, m', hm, hm', hcalls⟩ := (Post.Program.renames_renumbered hp hl hf hone).renamed_afterAll hadmits
    refine ⟨m, m', hm, ?_, ?_⟩
    · exact (congrArg _ String.map_id.symm).trans hm'
    · intro calls
      have hsame : calls.map (Call.map (Post.renumbering f).symbol) = calls := List.map_id'' Call.map_id calls
      have hlockstep := hcalls calls
      rwa [hsame] at hlockstep
  · intro p g h hg hstart hh hblank input
    exact (Turing.Program.renames_renamed hg hstart hh hblank).renamed_afterAll fun _ _ => rfl

/-- Out of order and with a jump to line 0, which is missing and stays missing as line 7. -/
def Post.jumpsToZero : Program := ⟨[⟨2, "? 0 1", .branch 0 1⟩, ⟨1, "→ 2", .perform .right 2⟩]⟩

/-- A Post program whose first line stays while the others, the missing one too, go up by seven, and a Turing
program with two states and two symbols swapped. -/
theorem renamed_programs_in_lockstep_swapped :
    (let f := fun n => if n = 1 then 1 else n + 7
     Post.jumpsToZero.DistinctLines ∧ Post.jumpsToZero.Within {n | n ≤ Text.maxNatural} ∧
      Set.InjOn f {n | n ≤ Text.maxNatural} ∧ f 1 = 1 ∧ (∀ c ∈ "110".toList, c = '0' ∨ c = '1') ∧
      ∃ m m', Post.jumpsToZero.automaton.start "110" = .ok m ∧
        (Post.jumpsToZero.renumbered f).automaton.start "110" = .ok m' ∧
        ∀ calls, (m.afterAll calls).Renamed (Post.renumbering f) (m'.afterAll calls)) ∧
    (let p : Turing.Program := ⟨[⟨"0", 'a', "1", 'b', .right⟩, ⟨"1", 'b', "0", '_', .left⟩], []⟩
     let g := Equiv.swap "1" "2"
     let h := Equiv.swap 'a' 'b'
     Function.Injective g ∧ g "0" = "0" ∧ Function.Injective h ∧ h '_' = '_' ∧
      ∃ m m', p.automaton.start "ab" = .ok m ∧ (p.renamed g h).automaton.start ("ab".map h) = .ok m' ∧
        ∀ calls, (m.afterAll calls).Renamed (p.renaming g h) (m'.afterAll (calls.map (Call.map h)))) := by
  constructor
  · intro f
    have hdistinct : Post.jumpsToZero.DistinctLines := by decide
    have hlines : Post.jumpsToZero.Within {n | n ≤ Text.maxNatural} := by
      constructor <;> simp [Post.jumpsToZero, Post.Command.targets, Text.maxNatural, Post.firstLine]
    have hinj : Set.InjOn f {n | n ≤ Text.maxNatural} := by
      intro n _ k _ h
      simp only [f] at h
      split at h <;> split at h <;> omega
    have hinput : ∀ c ∈ "110".toList, c = '0' ∨ c = '1' := by simp
    exact ⟨hdistinct, hlines, hinj, rfl, hinput,
      renamed_programs_in_lockstep.1 _ _ f hdistinct hlines hinj rfl "110" hinput⟩
  · intro p g h
    have hstart : g "0" = "0" := Equiv.swap_apply_of_ne_of_ne (by decide) (by decide)
    have hblank : h '_' = '_' := Equiv.swap_apply_of_ne_of_ne (by decide) (by decide)
    exact ⟨g.injective, hstart, h.injective, hblank,
      renamed_programs_in_lockstep.2 p g h g.injective hstart h.injective hblank "ab"⟩

end TapeMachines
