import TapeMachines.Proofs.Post.Decoding
import TapeMachines.Proofs.Post.Lookup
/-!
# Numbers of lines

Three numbers go with an instruction of a listing: the position of its line, its place among the instructions,
and the label before it. They differ as soon as a line is blank or a label is chosen freely, and the position alone
counts: `find?_ofLines_succ` says that a line number finds what stands on that line. A listing put behind another
keeps its instructions, with their numbers moved on (`instructions_ofLines_append`). Main statement:
`numbering_follows_positions`.
-/

namespace TapeMachines.Post

open Text

/-! ## Finding a line by its position -/

theorem find?_ofLines_zero (ls : List String) : (Program.ofLines ls).find? 0 = none := by
  rw [Program.find?_eq_none_iff]
  intro i hi
  obtain ⟨k, _, _, -, -, rfl⟩ := Program.mem_ofLines_iff.1 hi
  exact k.succ_ne_zero

/-- Line `k + 1` is found as the instruction with the words of the line at that position, if it has any. -/
theorem find?_ofLines_succ (ls : List String) (k : Nat) :
    (Program.ofLines ls).find? (k + 1) =
      ls[k]?.bind fun line => (lineWords line.toList).map (Instruction.ofWords (k + 1)) := by
  ext i
  rw [Program.find?_eq_some_iff (Program.distinctLines_ofLines ls), Program.mem_ofLines_iff]
  simp only [Option.bind_eq_some_iff, Option.map_eq_some_iff]
  constructor
  · rintro ⟨⟨n, line, ws, hline, hws, rfl⟩, hn⟩
    obtain rfl : n = k := Nat.succ.inj hn
    exact ⟨line, hline, ws, hws, rfl⟩
  · rintro ⟨line, hline, ws, hws, rfl⟩
    exact ⟨⟨k, line, ws, hline, hws, rfl⟩, rfl⟩

theorem exists_find?_ofLines {ls : List String} {k : Nat} {line : String} (hline : ls[k]? = some line)
    (hnonblank : ∃ c ∈ line.toList, isSpace c = false) :
    ∃ i, (Program.ofLines ls).find? (k + 1) = some i ∧ i.line = k + 1 ∧ i.ReadFrom line.toList := by
  obtain ⟨ws, hws⟩ : ∃ ws, lineWords line.toList = some ws := by
    rw [← Option.ne_none_iff_exists', Ne, lineWords_eq_none_iff]
    obtain ⟨c, hc, hspace⟩ := hnonblank
    intro hall
    rw [hall c hc] at hspace
    cases hspace
  refine ⟨.ofWords (k + 1) ws, ?_, rfl, readFrom_ofWords hws _⟩
  rw [find?_ofLines_succ, hline, Option.bind_some, hws, Option.map_some]

theorem find?_ofLines_eq_none_iff {ls : List String} {n : Nat} :
    (Program.ofLines ls).find? n = none ↔
      n = 0 ∨ ls.length < n ∨ ∃ line, ls[n - 1]? = some line ∧ ∀ c ∈ line.toList, isSpace c = true := by
  cases n with
  | zero => simp [find?_ofLines_zero]
  | succ k =>
    rw [find?_ofLines_succ, Nat.add_sub_cancel]
    cases hline : ls[k]? with
    | none => simpa [Nat.lt_succ_iff] using hline
    | some line =>
      have hk : k < ls.length := (List.getElem?_eq_some_iff.1 hline).1
      rw [Option.bind_some, Option.map_eq_none_iff, lineWords_eq_none_iff]
      constructor
      · exact fun hblank => .inr (.inr ⟨line, rfl, hblank⟩)
      · rintro (hzero | hbehind | ⟨line', hline', hblank⟩)
        · cases hzero
        · omega
        · cases hline'
          exact hblank

/-- Another text on line `k + 1` changes what is found there alone. -/
theorem find?_ofLines_set {k n : Nat} (h : n ≠ k + 1) (ls : List String) (line : String) :
    (Program.ofLines (ls.set k line)).find? n = (Program.ofLines ls).find? n := by
  cases n with
  | zero => rw [find?_ofLines_zero, find?_ofLines_zero]
  | succ n =>
    have hn : k ≠ n := fun heq => h (congrArg (· + 1) heq.symm)
    rw [find?_ofLines_succ, find?_ofLines_succ, List.getElem?_set_ne hn]

/-! ## One listing behind another -/

def Instruction.movedOn (distance : Nat) (i : Instruction) : Instruction := { i with line := i.line + distance }

theorem instructions_ofLines_append (as bs : List String) :
    (Program.ofLines (as ++ bs)).instructions =
      (Program.ofLines as).instructions ++ (Program.ofLines bs).instructions.map (.movedOn as.length) := by
  simp only [Program.ofLines, List.map_append, numbered_append, List.length_map, List.map_map]
  -- A line is read in the same way under whatever number.
  rfl

/-! ## Main theorem -/

/-- The instructions are the lines of the listing that are not all white space, in order and numbered by their
positions, and a number finds the line at that position or nothing. -/
structure Program.Numbers (p : Program) (ls : List String) : Prop where
  each : List.Forall₂ (fun (line, n) i => i.line = n ∧ i.ReadFrom line.toList)
    ((ls.zipIdx 1).filter fun (line, _) => line.toList.any fun c => !isSpace c) p.instructions
  ascending : (p.instructions.map (·.line)).Pairwise (· < ·)
  found : ∀ k line, ls[k]? = some line → (∃ c ∈ line.toList, isSpace c = false) →
    ∃ i, p.find? (k + 1) = some i ∧ i.line = k + 1 ∧ i.ReadFrom line.toList
  absent : ∀ n, p.find? n = none ↔
    n = 0 ∨ ls.length < n ∨ ∃ line, ls[n - 1]? = some line ∧ ∀ c ∈ line.toList, isSpace c = true

theorem numbers_ofLines (ls : List String) : (Program.ofLines ls).Numbers ls where
  each := forall₂_readFrom ls
  ascending := by
    rw [Program.ofLines, List.map_map]
    exact positions_numbered _
  found _ _ := exists_find?_ofLines
  absent _ := find?_ofLines_eq_none_iff

/-- Whatever labels the lines carry. The instructions of two listings put together are those of the first and those
of the second with their numbers moved on by the length of the first, and another text on one line leaves what is
found on every other. -/
theorem numbering_follows_positions (ls : List String) :
    (Program.ofLines ls).Numbers ls ∧
    (∀ more, (Program.ofLines (ls ++ more)).instructions =
      (Program.ofLines ls).instructions ++ (Program.ofLines more).instructions.map (.movedOn ls.length)) ∧
    ∀ k line n, n ≠ k + 1 → (Program.ofLines (ls.set k line)).find? n = (Program.ofLines ls).find? n :=
  ⟨numbers_ofLines ls, instructions_ofLines_append ls, fun _ line _ h => find?_ofLines_set h ls line⟩

/-- A gap that moves the second instruction to the third line, behind labels that name other lines. -/
theorem numbering_follows_positions_past_gap :
    let ls := ["7. ? 3 4", "", "2. 1 1"]
    (Program.ofLines ls).find? 2 = none ∧ (Program.ofLines ls).find? 7 = none ∧
      (∃ i, (Program.ofLines ls).find? 3 = some i ∧ i.line = 3 ∧ i.ReadFrom "2. 1 1".toList) ∧
      3 ≠ 0 + 1 ∧ (Program.ofLines (ls.set 0 "3. !")).find? 3 = (Program.ofLines ls).find? 3 := by
  intro ls
  obtain ⟨hnumbers, -, hedit⟩ := numbering_follows_positions ls
  have hgap : (Program.ofLines ls).find? 2 = none := (hnumbers.absent 2).2 (.inr (.inr ⟨"", rfl, List.forall_mem_nil _⟩))
  have hbehind : (Program.ofLines ls).find? 7 = none := (hnumbers.absent 7).2 (.inr (.inl (by decide)))
  exact ⟨hgap, hbehind, hnumbers.found 2 "2. 1 1" rfl ⟨'2', List.mem_cons_self, by decide⟩, by decide,
    hedit 0 "3. !" 3 (by decide)⟩

end TapeMachines.Post
