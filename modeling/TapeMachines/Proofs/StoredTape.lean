import TapeMachines.Proofs.Runs
import TapeMachines.Proofs.Snapshots
import TapeMachines.Proofs.Tape.Renderings
/-!
# The stored tape of a machine

A machine runs on the cells around its head, while what is stored is a sparse map. Both come of the same past: the
seed of the tape and what the machine has asked of it since. Each step asks for a look and what is then ordered
(`Machine.asks`); an accepted input begins a new past, and so does the reset of a Turing machine, while that of a Post
machine rewinds. So what is proved of a sparse map after any actions holds for the tape of any machine, and what a
machine shows is what its stored tape shows. Main statement: `stored_tape_is_shown`.
-/

namespace TapeMachines

variable {κ : Type}

/-! ## What a machine asks of its tape -/

/-- What an order asks for. Only a Turing machine asks for a move that stays. -/
def Order.actions (kind : Kind) : Order κ → List Tape.Action
  | .stop _ _ => []
  | .go _ write move _ =>
    (write.map .write).toList ++ if kind = .post ∧ move = .stay then [] else [.move move]

theorem Order.afterAll_actions (t : Tape) (kind : Kind) (instruction : String) (write : Option Char) (move : Direction)
    (next : κ) : t.afterAll ((Order.go instruction write move next).actions kind) = t.perform write move := by
  have hmove (t : Tape) : t.afterAll (if kind = .post ∧ move = .stay then [] else [.move move]) = t.move move := by
    split
    · next h =>
      rw [h.2]
      rfl
    · rfl
  cases write with
  | none => exact hmove t
  | some c => exact hmove (t.put c)

namespace Machine

/-- What one step asks for. -/
def asks (m : Machine κ) : List Tape.Action :=
  if m.isHalted then [] else .read :: (m.unit.order m.control m.tape.symbol).actions m.unit.kind

/-- What `n` steps ask for, one after the other. -/
def asksIn (m : Machine κ) : Nat → List Tape.Action
  | 0 => []
  | n + 1 => m.asks ++ m.next.asksIn n

theorem tape_next (m : Machine κ) : m.next.tape = m.tape.afterAll m.asks := by
  unfold asks
  refine m.next_cases ?_ ?_ ?_
  · intro h
    rw [if_pos h]
    rfl
  · intro reason instruction h ho
    rw [ho, if_neg (by simp [isHalted, h])]
    rfl
  · intro instruction write move next h ho
    rw [ho, if_neg (by simp [isHalted, h])]
    exact (Order.afterAll_actions m.tape _ instruction write move next).symm

theorem tape_run (m : Machine κ) (n : Nat) : (m.run n).1.tape = m.tape.afterAll (m.asksIn n) := by
  rw [run_eq]
  show (next^[n] m).tape = _
  induction n generalizing m with
  | zero => rfl
  | succ n ih => rw [Function.iterate_succ_apply, ih, tape_next, asksIn, Tape.afterAll_append]

end Machine

/-! ## Pasts -/

/-- What a tape was seeded with, and what has been asked of it since. -/
structure Tape.Past where
  seed : List Char
  actions : List Tape.Action

namespace Tape.Past

def more (past : Past) (actions : List Action) : Past := ⟨past.seed, past.actions ++ actions⟩

/-- The tape with this past, as cells around the head. -/
def tape (past : Past) (blank : Char) : Tape := (Tape.ofList blank past.seed).afterAll past.actions

/-- The tape with this past, as a sparse map. -/
def stored (past : Past) (blank : Char) : SparseTape := (SparseTape.ofList blank past.seed).afterAll past.actions

theorem tape_more (past : Past) (actions : List Action) (blank : Char) :
    (past.more actions).tape blank = (past.tape blank).afterAll actions := by
  rw [tape, more, afterAll_append, tape]

theorem sound_stored (past : Past) (blank : Char) : (past.stored blank).Sound :=
  (SparseTape.Sound.ofList blank past.seed).afterAll past.actions

theorem shows_stored (past : Past) (blank : Char) : (past.stored blank).Shows (past.tape blank) :=
  (SparseTape.Shows.ofList blank past.seed).afterAll (SparseTape.Sound.ofList blank past.seed) past.actions

end Tape.Past

namespace Machine

/-- The past of the tape of `m` with what a call adds to it. -/
def pastAfter (m : Machine κ) (past : Tape.Past) : Call → Tape.Past
  | .step => past.more m.asks
  | .run bound => past.more (m.asksIn bound)
  | .load input =>
    match m.unit.foreign? input.toList with
    | some _ => past
    | none => ⟨input.toList, []⟩
  | .reset =>
    match m.unit.kind with
    | .post => past.more [.rewind]
    | .turing => ⟨m.input, []⟩

/-- The past with what some calls add to it, one after the other. -/
def pastAfterAll (m : Machine κ) (past : Tape.Past) : List Call → Tape.Past
  | [] => past
  | call :: calls => (m.after call).pastAfterAll (m.pastAfter past call) calls

end Machine

namespace Program

variable {p : Program} {m : Machine p.Control} {past : Tape.Past}

theorem tape_reset (hunit : m.unit = p.automaton) (h : m.tape = past.tape p.automaton.blank) :
    m.reset.tape = (m.pastAfter past .reset).tape p.automaton.blank := by
  show m.unit.restart m.tape m.input = _
  unfold Machine.pastAfter
  rw [hunit]
  cases p with
  | post p =>
    show m.tape.rewind = (past.more [.rewind]).tape _
    rw [Tape.Past.tape_more, ← h]
    rfl
  | turing p => rfl

theorem tape_after (hunit : m.unit = p.automaton) (h : m.tape = past.tape p.automaton.blank) (call : Call) :
    (m.after call).tape = (m.pastAfter past call).tape p.automaton.blank := by
  cases call with
  | step => rw [Machine.after, m.tape_next, Machine.pastAfter, Tape.Past.tape_more, ← h]
  | run bound => rw [Machine.after, m.tape_run, Machine.pastAfter, Tape.Past.tape_more, ← h]
  | load input =>
    cases hforeign : m.unit.foreign? input.toList with
    | some found =>
      simp only [Machine.after, Machine.pastAfter, Machine.load, hforeign]
      exact h
    | none =>
      simp only [Machine.after, Machine.pastAfter, Machine.load, hforeign]
      exact congrArg (fun a => Tape.ofList a.blank input.toList) hunit
  | reset => exact tape_reset hunit h

theorem tape_afterAll (hunit : m.unit = p.automaton) (h : m.tape = past.tape p.automaton.blank) (calls : List Call) :
    (m.afterAll calls).tape = (m.pastAfterAll past calls).tape p.automaton.blank := by
  induction calls generalizing m past with
  | nil => exact h
  | cons call calls ih => exact ih ((m.unit_after call).trans hunit) (tape_after hunit h call)

theorem tape_of_start (p : Program) (input : List Char) (calls : List Call) :
    ((p.automaton.on input).afterAll calls).tape =
      ((p.automaton.on input).pastAfterAll ⟨input, []⟩ calls).tape p.automaton.blank :=
  tape_afterAll rfl rfl calls

end Program

/-! ## What is shown -/

/-- What a machine of this kind shows of a stored tape: all that was visited, or the contents. -/
def SparseTape.snapshot (kind : Kind) (s : SparseTape) : Snapshot :=
  match kind with
  | .post => ⟨s.head, s.symbol, String.ofList s.render, s.lowest⟩
  | .turing => ⟨s.head, s.symbol, String.ofList s.contents, s.contentsOrigin⟩

theorem Program.snapshot_of_shows (p : Program) {s : SparseTape} {t : Tape} (hs : s.Sound) (h : s.Shows t) :
    p.automaton.snapshot t = s.snapshot p.kind := by
  cases p with
  | post p => simp [Automaton.snapshot, Program.automaton, Post.Program.automaton, SparseTape.snapshot, Program.kind,
      h.head, h.symbol, h.render, h.lowest]
  | turing p => simp [Automaton.snapshot, Program.automaton, Turing.Program.automaton, SparseTape.snapshot,
      Program.kind, h.head, h.symbol, h.contents hs, h.contentsOrigin hs]

/-- A machine that has a tape with this past shows the stored one. -/
theorem Program.snapshot_tape (p : Program) (past : Tape.Past) :
    p.automaton.snapshot (past.tape p.automaton.blank) = (past.stored p.automaton.blank).snapshot p.kind :=
  p.snapshot_of_shows (past.sound_stored _) (past.shows_stored _)

/-- A log entry shows the stored tape after what its step has asked for. -/
theorem Program.exists_past_of_logs {p : Program} {m m₁ : Machine p.Control} {i : Nat} {e : LogEntry}
    (h : m.Logs p.automaton i e m₁) :
    ∃ past : Tape.Past, m₁.tape = past.tape p.automaton.blank ∧
      e.snapshot = ((past.more m₁.asks).stored p.automaton.blank).snapshot p.kind := by
  obtain ⟨input, m₀, calls, hm₀, rfl⟩ := h.reached
  obtain ⟨-, rfl⟩ := Automaton.start_eq_ok_iff.1 hm₀
  have htape := p.tape_of_start input.toList calls
  refine ⟨_, htape, ?_⟩
  rw [h.snapshot, Machine.tape_next, htape, ← Tape.Past.tape_more, p.snapshot_tape]

/-! ## Main theorem -/

/-- After any calls the tape of a machine and the stored tape have the same past, told from what the machine has asked
for: every look at the one is the same look at the other. So the status is a snapshot of the stored tape, and every log
entry one of the stored tape that its step left. -/
theorem stored_tape_is_shown (p : Program) {input : String} {m₀ : Machine p.Control} (h : p.start input = .ok m₀)
    (calls : List Call) :
    let m := m₀.afterAll calls
    let past := m₀.pastAfterAll ⟨input.toList, []⟩ calls
    let s := past.stored p.automaton.blank
    m.tape = past.tape p.automaton.blank ∧ s.Sound ∧ s.Shows m.tape ∧ m.status.snapshot = s.snapshot p.kind ∧
      ∀ (i : Nat) (e : LogEntry), m.log[i]? = some e → ∃ m₁, m.Logs p.automaton i e m₁ ∧
        ∃ past₁ : Tape.Past, m₁.tape = past₁.tape p.automaton.blank ∧
          e.snapshot = ((past₁.more m₁.asks).stored p.automaton.blank).snapshot p.kind := by
  intro m past s
  have hreaches : p.automaton.Reaches m := ⟨input, m₀, calls, h, rfl⟩
  obtain ⟨-, rfl⟩ := Automaton.start_eq_ok_iff.1 h
  have htape : m.tape = past.tape p.automaton.blank := p.tape_of_start input.toList calls
  refine ⟨htape, past.sound_stored _, ?_, ?_, ?_⟩
  · rw [htape]
    exact past.shows_stored _
  · rw [m.snapshot_status, hreaches.unit, htape]
    exact p.snapshot_tape past
  · intro i e hi
    obtain ⟨m₁, hlogs⟩ := Machine.exists_logs hreaches i e hi
    exact ⟨m₁, hlogs, Program.exists_past_of_logs hlogs⟩

end TapeMachines
