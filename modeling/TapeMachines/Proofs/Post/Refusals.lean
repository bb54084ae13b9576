import TapeMachines.Program
import TapeMachines.Proofs.Runs
import TapeMachines.Proofs.Tape.Stretch
/-!
# Tapes that a Post machine refuses

An input is refused for its first symbol that is neither `0` nor `1`, told with its index in the input
(`foreign?_eq_some_iff`). A machine that is given such an input, whatever it has been through, stays as it is in every
part, and no later call can tell. An input that is accepted replaces the tape and nothing else, so that it ends no
halt. A start refuses the same inputs for the same symbols. Main statement: `foreign_tapes_change_nothing`.
-/

namespace TapeMachines

/-- `found` is the first symbol of an input that is not among the admitted ones, with its index. -/
structure ForeignSymbol.IsFirst (admits : Char → Prop) (input : List Char) (found : ForeignSymbol) : Prop where
  here : input[found.position]? = some found.symbol
  foreign : ¬ admits found.symbol
  before : ∀ i c, i < found.position → input[i]? = some c → admits c

namespace Automaton

variable {κ : Type} {a : Automaton κ} {input : String} {found : ForeignSymbol}

theorem foreign?_eq_some_iff {input : List Char} :
    a.foreign? input = some found ↔ found.IsFirst (fun c => a.admits c = true) input := by
  rw [foreign?, Option.map_eq_some_iff]
  constructor
  · rintro ⟨⟨c, i⟩, hfind, rfl⟩
    obtain ⟨hc, j, hj, hget, hbefore⟩ := List.find?_eq_some_iff_getElem.1 hfind
    rw [List.length_zipIdx] at hj
    simp only [List.getElem_zipIdx, Nat.zero_add, Prod.mk.injEq] at hget
    obtain ⟨rfl, rfl⟩ := hget
    refine ⟨List.getElem?_eq_getElem hj, by simpa using hc, ?_⟩
    intro k c hk hkc
    obtain ⟨hlength, rfl⟩ := List.getElem?_eq_some_iff.1 hkc
    simpa using hbefore k hk
  · rintro ⟨hhere, hforeign, hbefore⟩
    obtain ⟨hj, hget⟩ := List.getElem?_eq_some_iff.1 hhere
    refine ⟨(found.symbol, found.position), List.find?_eq_some_iff_getElem.2 ⟨by simpa using hforeign, ?_⟩, rfl⟩
    refine ⟨found.position, by rwa [List.length_zipIdx], by simp [hget], ?_⟩
    intro k hk
    simpa using hbefore k _ hk (List.getElem?_eq_getElem (Nat.lt_trans hk hj))

theorem start_eq_error_iff : a.start input = .error found ↔ a.foreign? input.toList = some found := by
  rw [start]
  split
  · next h => simp [h]
  · next h => simp [h]

end Automaton

namespace Machine

variable {κ : Type} {m m' : Machine κ} {input : String} {found : ForeignSymbol}

theorem load_eq_error_iff : m.load input = .error found ↔ m.unit.foreign? input.toList = some found := by
  rw [load]
  split
  · next h => simp [h]
  · next h => simp [h]

/-- A refused tape leaves the machine in the state it was in. -/
theorem after_of_refused (h : m.load input = .error found) : m.after (.load input) = m := by
  rw [after, h]
  rfl

theorem after_of_loaded (h : m.load input = .ok m') : m.after (.load input) = m' := by
  rw [after, h]
  rfl

end Machine

namespace Post

variable {p : Program} {m : Machine Nat} {found : ForeignSymbol}

theorem foreign?_automaton {input : List Char} :
    p.automaton.foreign? input = some found ↔ found.IsFirst (fun c => c = '0' ∨ c = '1') input := by
  have hadmits : (fun c => p.automaton.admits c = true) = fun c => c = '0' ∨ c = '1' :=
    funext fun c => propext isSymbol_iff
  rw [Automaton.foreign?_eq_some_iff, hadmits]

/-- `m'` is `m` on a tape seeded from `seed`, with the head at its beginning; nothing else has changed. -/
structure OnTapeOf (seed : List Char) (m m' : Machine Nat) : Prop where
  unit : m'.unit = m.unit
  line : m'.control = m.control
  halt : m'.halt = m.halt
  stepCount : m'.stepCount = m.stepCount
  log : m'.log = m.log
  get : ∀ i, m'.tape.get i = (Tape.seedAt? seed i).getD '0'
  head : m'.tape.head = 0
  leftmost : m'.tape.leftmost = 0
  rightmost : m'.tape.rightmost = max (seed.length - 1 : Int) 0

theorem onTapeOf_withTape (hu : m.unit = p.automaton) (seed : List Char) : OnTapeOf seed m (m.withTape seed) where
  unit := rfl
  line := rfl
  halt := rfl
  stepCount := rfl
  log := rfl
  get i := by
    rw [Machine.withTape, hu]
    exact Tape.get_ofList_eq_seedAt? _ seed i
  head := Tape.head_ofList _ seed
  leftmost := Tape.leftmost_ofList _ seed
  rightmost := by
    rw [Machine.withTape, Tape.rightmost_ofList]
    omega

/-! ## Main theorem -/

/-- After any calls an input is refused exactly if it has a symbol other than the two, and then for the first of these
with its index; every start refuses it for the same. The refused input leaves the machine as it was, and what later
calls make of it and give back is as if it had not been given. One that is not refused replaces the tape and nothing
else, and if the machine had halted, it stays so until a reset. -/
theorem foreign_tapes_change_nothing (p : Program) (m : Machine Nat) (h : p.automaton.Reaches m) (input : String) :
    ((∃ found, m.load input = .error found) ↔ ∃ c ∈ input.toList, c ≠ '0' ∧ c ≠ '1') ∧
    (∀ found, (m.load input = .error found ↔ found.IsFirst (fun c => c = '0' ∨ c = '1') input.toList) ∧
      (p.automaton.start input = .error found ↔ m.load input = .error found) ∧
      ((TapeMachines.Program.post p).start input = .error found ↔ m.load input = .error found) ∧
      (m.load input = .error found → m.after (.load input) = m ∧
        ∀ later, m.afterAll (.load input :: later) = m.afterAll later ∧
          m.replies (.load input :: later) = .loaded (some found) :: m.replies later)) ∧
    (∀ m', m.load input = .ok m' → m.after (.load input) = m' ∧ OnTapeOf input.toList m m' ∧
      (m.isHalted = true → ∀ later, .reset ∉ later →
        (m'.afterAll later).isHalted = true ∧ (m'.afterAll later).step = (m'.afterAll later, .idle))) := by
  have hu := h.unit
  have hload {found} : m.load input = .error found ↔ p.automaton.foreign? input.toList = some found := by
    rw [Machine.load_eq_error_iff, hu]
  refine ⟨?exact, ?refused, ?accepted⟩
  case exact =>
    have hnone : (∃ found, m.load input = .error found) ↔ p.automaton.foreign? input.toList ≠ none := by
      rw [Option.ne_none_iff_exists']
      exact exists_congr fun _ => hload
    rw [hnone, Ne, Automaton.foreign?_eq_none_iff]
    simp only [Program.automaton, isSymbol_iff, not_forall, not_or, exists_prop]
  case refused =>
    intro found
    refine ⟨hload.trans foreign?_automaton, Automaton.start_eq_error_iff.trans hload.symm,
      Automaton.start_eq_error_iff.trans hload.symm, ?_⟩
    intro hrefused
    have hafter := Machine.after_of_refused hrefused
    refine ⟨hafter, fun later => ⟨?_, ?_⟩⟩
    · rw [Machine.afterAll, List.foldl_cons, hafter]
      rfl
    · rw [Machine.replies, hafter, Machine.reply, hu, hload.1 hrefused]
  case accepted =>
    intro m' hok
    obtain ⟨-, rfl⟩ := Machine.load_eq_ok_iff.1 hok
    refine ⟨Machine.after_of_loaded hok, onTapeOf_withTape hu _, ?_⟩
    intro hhalted later hlater
    have hstays := Machine.isHalted_afterAll (m := m.withTape input.toList) hhalted hlater
    exact ⟨hstays, Machine.step_halted hstays⟩

/-- A machine that has halted refuses a tape with two foreign symbols for the first of them, counted in characters. -/
theorem foreign_tapes_change_nothing_halted :
    let p : Program := ⟨[⟨1, "→ 2", .perform .right 2⟩, ⟨2, "!", .halt⟩]⟩
    ∃ m, p.automaton.Reaches m ∧ m.isHalted = true ∧ m.load "01→é1" = .error ⟨'→', 2⟩ ∧
      (∀ later, m.afterAll (.load "01→é1" :: later) = m.afterAll later ∧
        m.replies (.load "01→é1" :: later) = .loaded (some ⟨'→', 2⟩) :: m.replies later) ∧
      ∃ m', m.load "011" = .ok m' ∧ OnTapeOf ['0', '1', '1'] m m' ∧ (m'.afterAll [.run 3]).isHalted = true := by
  intro p
  have h : p.automaton.Reaches ((p.automaton.on ['1']).afterAll [.run 5]) := ⟨"1", _, [.run 5], rfl, rfl⟩
  obtain ⟨-, hrefused, -⟩ := foreign_tapes_change_nothing p _ h "01→é1"
  obtain ⟨-, -, haccepted⟩ := foreign_tapes_change_nothing p _ h "011"
  obtain ⟨-, honTape, hhalted⟩ := haccepted _ rfl
  exact ⟨_, h, rfl, rfl, ((hrefused ⟨'→', 2⟩).2.2.2 rfl).2, _, rfl, honTape, (hhalted rfl [.run 3] (by decide)).1⟩

end Post

end TapeMachines
