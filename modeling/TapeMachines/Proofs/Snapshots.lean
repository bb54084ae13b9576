import TapeMachines.Program
import TapeMachines.Proofs.History
import TapeMachines.Proofs.Tape.Stretch
/-!
# Snapshots

A status and a log entry both hold a snapshot of a tape: the head, the symbol under it, and a text with the
position where it begins. The text is always a stretch of the tape that leaves out blanks only
(`Program.exists_shown`), so that the head's place in it holds the symbol, and a head that has no place in it
stands on a blank. Main statement: `snapshots_locate_head`.
-/

namespace TapeMachines

structure Snapshot where
  head : Int
  symbol : Char
  tape : String
  /-- The position of the first character of `tape`. -/
  origin : Int
  deriving DecidableEq, Repr

def Status.snapshot (s : Status) : Snapshot := ⟨s.head, s.symbol, s.tape, s.origin⟩

def LogEntry.snapshot (e : LogEntry) : Snapshot := ⟨e.head, e.symbol, e.tape, e.origin⟩

/-- What `a` shows of a tape. -/
def Automaton.snapshot {κ : Type} (a : Automaton κ) (t : Tape) : Snapshot :=
  ⟨t.head, t.symbol, String.ofList (a.shows t).1, (a.shows t).2⟩

/-- A character of the text is the symbol at its position. -/
def Snapshot.Shows (cells : Int → Char) (v : Snapshot) : Prop :=
  ∀ (i : Nat) (c : Char), v.tape.toList[i]? = some c → cells (v.origin + i) = c

/-- The head has a place in the text. -/
def Snapshot.HeadShown (v : Snapshot) : Prop := 0 ≤ v.head - v.origin ∧ v.head - v.origin < v.tape.length

/-- What the snapshot `v` of the tape `t` of a machine of `a` tells of the head. -/
structure Snapshot.Locates {κ : Type} (a : Automaton κ) (t : Tape) (v : Snapshot) : Prop where
  head : v.head = t.head
  shown : v.Shows t.get
  inside : v.HeadShown → v.tape.toList[(v.head - v.origin).toNat]? = some v.symbol
  outside : ¬v.HeadShown → v.symbol = a.blank
  post : a.kind = .post → v.HeadShown
  turing : a.kind = .turing →
    (v.tape = "" ∨ (∃ c, v.tape.toList.head? = some c ∧ c ≠ a.blank) ∧
      ∃ c, v.tape.toList.getLast? = some c ∧ c ≠ a.blank) ∧
    (v.HeadShown ↔ ∃ first last, Tape.Ends a.blank t.get first last ∧ first ≤ v.head ∧ v.head ≤ last)

namespace Machine

variable {κ : Type}

theorem snapshot_status (m : Machine κ) : m.status.snapshot = m.unit.snapshot m.tape := rfl

theorem snapshot_entry (m : Machine κ) (instruction : String) (next : κ) (t : Tape) (halt : Option Halt) :
    (m.entry instruction next t halt).snapshot = m.unit.snapshot t := rfl

end Machine

/-! ## What a text leaves out -/

open Tape (stretch Ends)

/-- The text of a snapshot is a stretch with only blanks outside it. For a Post machine it holds the head; for
a Turing machine it is empty on a blank tape and else lies between the outermost cells that are not blank. -/
theorem Program.exists_shown (p : Program) (t : Tape) :
    ∃ first last, p.automaton.shows t = (stretch t.get first last, first) ∧
      (∀ q, q < first ∨ last < q → t.get q = t.blank) ∧
      (p.automaton.kind = .post → first ≤ t.head ∧ t.head ≤ last) ∧
      (p.automaton.kind = .turing →
        (last < first ∧ ∀ q, t.get q = t.blank) ∨ Ends t.blank t.get first last) := by
  cases p with
  | post p =>
    refine ⟨t.leftmost, t.rightmost, ?_, ?_, ?_, nofun⟩
    · show (t.render, t.leftmost) = _
      rw [t.render_eq_stretch]
    · rintro q (hq | hq)
      · exact Tape.get_of_lt_leftmost hq
      · exact Tape.get_of_gt_rightmost hq
    · exact fun _ => ⟨t.leftmost_le_head, t.head_le_rightmost⟩
  | turing p =>
    rcases t.blank_or_contents with hblank | ⟨first, last, he⟩
    · refine ⟨t.head, t.head - 1, ?_, fun q _ => hblank q, nofun, fun _ => .inl ⟨by omega, hblank⟩⟩
      show (t.contents, t.contentsOrigin) = _
      rw [Tape.contents_of_blank hblank, Tape.contentsOrigin_of_blank hblank]
      simp [stretch]
    · refine ⟨first, last, ?_, ?_, nofun, fun _ => .inr he⟩
      · show (t.contents, t.contentsOrigin) = _
        rw [Tape.contents_eq_stretch he, Tape.contentsOrigin_eq he]
      · rintro q (hq | hq)
        · exact he.blank_of_lt hq
        · exact he.blank_of_gt hq

theorem Program.locates (p : Program) {t : Tape} (hb : t.blank = p.automaton.blank) :
    (p.automaton.snapshot t).Locates p.automaton t := by
  obtain ⟨first, last, hshows, hout, hpost, hturing⟩ := p.exists_shown t
  have htape : (p.automaton.snapshot t).tape.toList = stretch t.get first last := by
    simp [Automaton.snapshot, hshows]
  have horigin : (p.automaton.snapshot t).origin = first := by
    simp [Automaton.snapshot, hshows]
  have hhead : (p.automaton.snapshot t).head = t.head := rfl
  have hsymbol : (p.automaton.snapshot t).symbol = t.get t.head := t.get_head.symm
  have hplace : (p.automaton.snapshot t).HeadShown ↔ first ≤ t.head ∧ t.head ≤ last := by
    rw [Snapshot.HeadShown, ← String.length_toList, htape, horigin, hhead, Tape.length_stretch]
    omega
  rw [hb] at hout hturing
  refine ⟨hhead, ?shown, ?inside, ?outside, fun hk => hplace.2 (hpost hk), fun hk => ⟨?edges, ?between⟩⟩
  case shown =>
    intro i c hc
    rw [htape, Tape.getElem?_stretch] at hc
    rw [horigin]
    split at hc
    · exact Option.some.inj hc
    · cases hc
  case inside =>
    intro h
    obtain ⟨hfirst, hlast⟩ := hplace.1 h
    rw [htape, horigin, hhead, hsymbol, Tape.getElem?_stretch, if_pos (by omega)]
    rw [show first + ((t.head - first).toNat : Int) = t.head by omega]
  case outside =>
    intro h
    rw [hplace] at h
    rw [hsymbol]
    exact hout _ (by omega)
  case edges =>
    rcases hturing hk with ⟨hlt, -⟩ | he
    · left
      rw [← String.toList_eq_nil_iff, htape, ← List.length_eq_zero_iff, Tape.length_stretch]
      omega
    · right
      rw [htape]
      exact he.edges
  case between =>
    rw [hplace]
    rcases hturing hk with ⟨hlt, hblank⟩ | he
    · -- A blank tape has no ends, and its text no place for the head.
      constructor
      · intro h
        omega
      · rintro ⟨a, b, hends, -⟩
        exact absurd (hblank a) hends.first.1
    · constructor
      · intro h
        exact ⟨first, last, he, h⟩
      · rintro ⟨a, b, hends, ha, hb⟩
        rw [he.first.unique hends.first, he.last.unique hends.last]
        exact ⟨ha, hb⟩

/-! ## The tape under a program -/

theorem Program.blank_restart (p : Program) {t : Tape} (hb : t.blank = p.automaton.blank) (input : List Char) :
    (p.automaton.restart t input).blank = p.automaton.blank := by
  cases p with
  | post p => exact (Tape.blank_rewind t).trans hb
  | turing p => exact Tape.blank_ofList _ input

/-- The tape's blank stays that of the program. -/
theorem Program.blank_of_reaches (p : Program) {m : Machine p.Control} (h : p.automaton.Reaches m) :
    m.tape.blank = p.automaton.blank := by
  apply h.inv (I := fun m => m.tape.blank = p.automaton.blank)
  · intro input _
    exact Tape.blank_ofList _ input
  · intro m _ hb
    refine m.next_cases (fun _ => hb) (fun _ _ _ _ => hb) ?_
    intro instruction write move next _ _
    exact (m.tape.blank_perform write move).trans hb
  · intro m input hm _ _
    exact (Tape.blank_ofList _ input).trans (congrArg Automaton.blank hm.unit)
  · intro m hm hb
    rw [Machine.reset, hm.unit]
    exact p.blank_restart hb m.input

/-! ## Where a log entry comes from -/

namespace Machine

variable {κ : Type} {a : Automaton κ} {m : Machine κ}

/-- The `i`-th entry `e` of the log of `m` was added by a step of `m₁`, which then had logged what comes before
it, and is a snapshot of the tape that this step left. -/
structure Logs (a : Automaton κ) (m : Machine κ) (i : Nat) (e : LogEntry) (m₁ : Machine κ) : Prop where
  reached : a.Reaches m₁
  before : m₁.log.toList = m.log.toList.take i
  added : m₁.next.log = m₁.log.push e
  snapshot : e.snapshot = a.snapshot m₁.next.tape

theorem exists_logs_next (h : a.Reaches m)
    (hm : ∀ (i : Nat) (e : LogEntry), m.log[i]? = some e → ∃ m₁, Logs a m i e m₁) (i : Nat) (e : LogEntry) :
    m.next.log[i]? = some e → ∃ m₁, Logs a m.next i e m₁ := by
  obtain rfl := h.unit
  by_cases hidle : m.step.2 = .idle
  · rw [log_of_idle hidle]
    intro hi
    obtain ⟨m₁, hl⟩ := hm i e hi
    exact ⟨m₁, hl.reached, by rw [hl.before, log_of_idle hidle], hl.added, hl.snapshot⟩
  · obtain ⟨d, hlog, -, hafter⟩ := exists_entry_of_step hidle
    intro hi
    rw [hlog, Array.getElem?_push] at hi
    split at hi
    · next hlast =>
      -- The entry in the last place is the one this step has added.
      obtain rfl := Option.some.inj hi
      refine ⟨m, h, ?_, hlog, ?_⟩
      · simp [hlog, hlast]
      · simp only [Prod.mk.injEq] at hafter
        obtain ⟨-, hhead, hsymbol, htape, horigin⟩ := hafter
        rw [LogEntry.snapshot, hhead, hsymbol, htape, horigin]
        exact (snapshot_status m.next).trans (by rw [unit_next])
    · obtain ⟨m₁, hl⟩ := hm i e hi
      have hlt : i < m.log.size := (Array.getElem?_eq_some_iff.1 hi).1
      refine ⟨m₁, hl.reached, ?_, hl.added, hl.snapshot⟩
      rw [hl.before, hlog, Array.toList_push, List.take_append_of_le_length]
      simp only [Array.length_toList]
      omega

theorem exists_logs (h : a.Reaches m) : ∀ (i : Nat) (e : LogEntry), m.log[i]? = some e → ∃ m₁, Logs a m i e m₁ := by
  apply h.inv (I := fun m => ∀ (i : Nat) (e : LogEntry), m.log[i]? = some e → ∃ m₁, Logs a m i e m₁)
  · intro input _ i e hi
    simp [Automaton.on] at hi
  · intro m hm hlog
    exact exists_logs_next hm hlog
  · intro m input _ _ hlog i e hi
    obtain ⟨m₁, hl⟩ := hlog i e hi
    exact ⟨m₁, hl.reached, hl.before, hl.added, hl.snapshot⟩
  · intro m _ _ i e hi
    simp [reset] at hi

end Machine

/-! ## Main theorem -/

/-- A status locates the head on the tape of its machine, and every log entry on the tape that the step which
logged it left. -/
theorem snapshots_locate_head (p : Program) (m : Machine p.Control) (h : p.automaton.Reaches m) :
    m.status.snapshot.Locates p.automaton m.tape ∧
      ∀ (i : Nat) (e : LogEntry), m.log[i]? = some e →
        ∃ m₁, m.Logs p.automaton i e m₁ ∧ e.snapshot.Locates p.automaton m₁.next.tape := by
  constructor
  · rw [m.snapshot_status, h.unit]
    exact p.locates (p.blank_of_reaches h)
  · intro i e hi
    obtain ⟨m₁, hl⟩ := Machine.exists_logs h i e hi
    refine ⟨m₁, hl, ?_⟩
    rw [hl.snapshot]
    exact p.locates (p.blank_of_reaches hl.reached.next)

/-- A Turing machine whose head leaves the text to the left after its first step and stands inside it, on a
blank, after its second. -/
theorem snapshots_locate_head_outside :
    let p : Program := .turing ⟨[⟨"0", 'a', "1", '_', .left⟩, ⟨"1", '_', "2", 'b', .right⟩], []⟩
    ∃ m e m₁, p.automaton.Reaches m ∧
      (m.status.tape = "b_b" ∧ m.status.origin = -1 ∧ m.status.head = 0 ∧ m.status.symbol = '_') ∧
      m.status.snapshot.Locates p.automaton m.tape ∧
      m.log[0]? = some e ∧ (e.tape = "b" ∧ e.origin = 1 ∧ e.head = -1 ∧ e.symbol = '_') ∧
      m.Logs p.automaton 0 e m₁ ∧ e.snapshot.Locates p.automaton m₁.next.tape := by
  intro p
  have h : p.automaton.Reaches ((p.automaton.on "ab".toList).afterAll [.run 5]) := ⟨"ab", _, [.run 5], rfl, rfl⟩
  obtain ⟨hstatus, hlog⟩ := snapshots_locate_head p _ h
  obtain ⟨m₁, hlogs, hentry⟩ := hlog 0 _ rfl
  exact ⟨_, _, m₁, h, by decide, hstatus, rfl, by decide, hlogs, hentry⟩

end TapeMachines
