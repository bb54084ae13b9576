import TapeMachines.Proofs.Runs
import TapeMachines.Proofs.Snapshots
import TapeMachines.Proofs.Tape.SameCells
/-!
# Visited bounds never matter

How much of its tape a machine has visited goes into its snapshots and into nothing else. Two machines of one
program that differ in it alone stay in step: every call that makes the same of both tapes keeps `InStep`, and
gives the same back. What may differ then is in the snapshots taken since, and for a Post machine only in how
many erased cells these show at the two ends. Main statement: `visited_bounds_inert`.
-/

namespace TapeMachines

/-! ## Snapshots of the same cells -/

/-- The text is `shared`, which begins at position `first`, with blanks before and after it. -/
def Snapshot.Pads (blank : Char) (shared : List Char) (first : Int) (v : Snapshot) : Prop :=
  ∃ before after : Nat,
    v.tape.toList = List.replicate before blank ++ shared ++ List.replicate after blank ∧ v.origin = first - before

/-- Both show the same cells, in texts that differ at most in how many blanks stand at the two ends. -/
structure Snapshot.SameUpToBlanks (blank : Char) (v v' : Snapshot) : Prop where
  head : v.head = v'.head
  symbol : v.symbol = v'.symbol
  cells : ∃ cells, v.Shows cells ∧ v'.Shows cells
  texts : ∃ shared first, v.Pads blank shared first ∧ v'.Pads blank shared first

/-- Snapshots of a Post machine may differ in their outer blanks, those of a Turing machine in nothing. -/
def Snapshot.Agree (kind : Kind) (v v' : Snapshot) : Prop :=
  match kind with
  | .post => v.SameUpToBlanks Post.blank v'
  | .turing => v = v'

structure LogEntry.Agree (kind : Kind) (e e' : LogEntry) : Prop where
  step : e.step = e'.step
  before : e.before = e'.before
  read : e.read = e'.read
  instruction : e.instruction = e'.instruction
  after : e.after = e'.after
  halt : e.halt = e'.halt
  snapshot : e.snapshot.Agree kind e'.snapshot

structure Status.Agree (kind : Kind) (s s' : Status) : Prop where
  control : s.control = s'.control
  halted : s.halted = s'.halted
  stepCount : s.stepCount = s'.stepCount
  snapshot : s.snapshot.Agree kind s'.snapshot

theorem LogEntry.Agree.eq {e e' : LogEntry} (h : e.Agree .turing e') : e = e' := by
  obtain ⟨hstep, hbefore, hread, hinstruction, hafter, hhalt, hsnapshot⟩ := h
  cases e
  cases e'
  simp_all [Snapshot.Agree, LogEntry.snapshot]

theorem Status.Agree.eq {s s' : Status} (h : s.Agree .turing s') : s = s' := by
  obtain ⟨hcontrol, hhalted, hstepCount, hsnapshot⟩ := h
  cases s
  cases s'
  simp_all [Snapshot.Agree, Status.snapshot]

/-- What a Post machine shows of one of two tapes with the same cells is what both have visited, and blanks. -/
theorem Post.Program.pads (p : Post.Program) {t t' : Tape} (hb : t.blank = Post.blank) (h : t.SameCells t') :
    (p.automaton.snapshot t).Pads Post.blank
      (Tape.stretch t.get (max t.leftmost t'.leftmost) (min t.rightmost t'.rightmost))
      (max t.leftmost t'.leftmost) := by
  refine ⟨(max t.leftmost t'.leftmost - t.leftmost).toNat, (t.rightmost - min t.rightmost t'.rightmost).toNat, ?_, ?_⟩
  · show (String.ofList t.render).toList = _
    rw [String.toList_ofList, h.render_eq_padded, hb]
  · show t.leftmost = _
    omega

theorem Program.snapshot_agree (p : Program) {t t' : Tape} (hb : t.blank = p.automaton.blank)
    (h : t.SameCells t') : (p.automaton.snapshot t).Agree p.kind (p.automaton.snapshot t') := by
  have hb' : t'.blank = p.automaton.blank := h.blank.symm.trans hb
  cases p with
  | post p =>
    have hshown := (Program.locates (.post p) hb).shown
    have hshown' := (Program.locates (.post p) hb').shown
    have hpads' := p.pads hb' h.symm
    rw [← funext h.get] at hshown' hpads'
    rw [max_comm, min_comm] at hpads'
    exact ⟨h.head, h.symbol, ⟨t.get, hshown, hshown'⟩, _, _, p.pads hb h, hpads'⟩
  | turing p =>
    obtain ⟨hcontents, horigin⟩ := h.contents
    show Snapshot.mk t.head t.symbol (String.ofList t.contents) t.contentsOrigin = _
    rw [h.head, h.symbol, hcontents, horigin]
    rfl

/-! ## Inputs that a reset makes the same of -/

/-- Whichever of the two inputs is the last one, a reset brings the same cells back from the same cells. -/
def Program.Interchangeable (p : Program) (input input' : List Char) : Prop :=
  ∀ t t' : Tape, t.SameCells t' → (p.automaton.restart t input).SameCells (p.automaton.restart t' input')

/-- A Post machine takes its tape as it is. -/
theorem Program.interchangeable_of_post {p : Program} (hp : p.kind = .post) (input input' : List Char) :
    p.Interchangeable input input' := by
  intro t t' h
  cases p with
  | post p => exact h.rewind
  | turing p => cases hp

theorem Program.interchangeable_append (p : Program) (input : List Char) (k : Nat) :
    p.Interchangeable input (input ++ List.replicate k p.automaton.blank) := by
  cases p with
  | post p => exact Program.interchangeable_of_post rfl input _
  | turing p =>
    intro t t' _
    exact Tape.SameCells.ofList_append Turing.blank input k

theorem Program.interchangeable_refl (p : Program) (input : List Char) : p.Interchangeable input input := by
  have h := p.interchangeable_append input 0
  rwa [List.replicate_zero, List.append_nil] at h

/-! ## Machines in step -/

namespace Machine

/-- They agree in everything but how much of the tape they have visited. -/
structure SameButVisited {κ : Type} (m m' : Machine κ) : Prop where
  unit : m.unit = m'.unit
  control : m.control = m'.control
  tape : m.tape.SameCells m'.tape
  halt : m.halt = m'.halt
  stepCount : m.stepCount = m'.stepCount
  log : m.log = m'.log

/-- Two machines of `p` agree in everything but how much of the tape they have visited and in what follows from
that for the snapshots they have logged after `old`. -/
structure InStep (p : Program) (old : List LogEntry) (m m' : Machine p.Control) : Prop where
  unit : m.unit = p.automaton
  unit' : m'.unit = p.automaton
  blank : m.tape.blank = p.automaton.blank
  control : m.control = m'.control
  tape : m.tape.SameCells m'.tape
  halt : m.halt = m'.halt
  stepCount : m.stepCount = m'.stepCount
  log : ∃ new new', m.log.toList = old ++ new ∧ m'.log.toList = old ++ new' ∧
    List.Forall₂ (LogEntry.Agree p.kind) new new'

variable {p : Program} {old : List LogEntry} {m m' : Machine p.Control}

theorem SameButVisited.inStep (h : m.SameButVisited m') (hm : p.automaton.Reaches m) :
    InStep p m.log.toList m m' where
  unit := hm.unit
  unit' := h.unit.symm.trans hm.unit
  blank := p.blank_of_reaches hm
  control := h.control
  tape := h.tape
  halt := h.halt
  stepCount := h.stepCount
  log := ⟨[], [], (List.append_nil _).symm, by rw [← h.log, List.append_nil], .nil⟩

namespace InStep

theorem units (h : InStep p old m m') : m.unit = m'.unit := h.unit.trans h.unit'.symm

theorem label (h : InStep p old m m') : m.unit.label m.control = m'.unit.label m'.control := by
  rw [h.units, h.control]

theorem status (h : InStep p old m m') : m.status.Agree p.kind m'.status where
  control := h.label
  halted := congrArg Option.isSome h.halt
  stepCount := h.stepCount
  snapshot := by
    rw [snapshot_status, snapshot_status, h.unit, h.unit']
    exact p.snapshot_agree h.blank h.tape

/-- The entries for a step that leads to the same cells. -/
theorem entry (h : InStep p old m m') {t t' : Tape} (hb : t.blank = p.automaton.blank) (ht : t.SameCells t')
    (instruction : String) (next : p.Control) (halt : Option Halt) :
    (m.entry instruction next t halt).Agree p.kind (m'.entry instruction next t' halt) where
  step := h.stepCount
  before := h.label
  read := h.tape.symbol
  instruction := rfl
  after := congrArg (·.label next) h.units
  halt := rfl
  snapshot := by
    rw [snapshot_entry, snapshot_entry, h.unit, h.unit']
    exact p.snapshot_agree hb ht

theorem log_push (h : InStep p old m m') {e e' : LogEntry} (he : e.Agree p.kind e') :
    ∃ new new', (m.log.push e).toList = old ++ new ∧ (m'.log.push e').toList = old ++ new' ∧
      List.Forall₂ (LogEntry.Agree p.kind) new new' := by
  obtain ⟨new, new', hnew, hnew', hagree⟩ := h.log
  refine ⟨new ++ [e], new' ++ [e'], ?_, ?_, List.rel_append hagree (.cons he .nil)⟩
  · rw [Array.toList_push, hnew, List.append_assoc]
  · rw [Array.toList_push, hnew', List.append_assoc]

/-- Both see the same symbol at the same control point, so both get the same order. -/
theorem step (h : InStep p old m m') : InStep p old m.next m'.next ∧ m.step.2 = m'.step.2 := by
  have horder : m'.unit.order m'.control m'.tape.symbol = m.unit.order m.control m.tape.symbol := by
    rw [h.units, h.control, h.tape.symbol]
  cases hm : m.halt with
  | some reason =>
    have hhalted : m.isHalted = true := by simp [isHalted, hm]
    have hhalted' : m'.isHalted = true := by simp [isHalted, ← h.halt, hm]
    rw [next_of_halted hhalted, next_of_halted hhalted', step_halted hhalted, step_halted hhalted']
    exact ⟨h, rfl⟩
  | none =>
    have hm' : m'.halt = none := h.halt ▸ hm
    cases ho : m.unit.order m.control m.tape.symbol with
    | stop reason instruction =>
      rw [ho] at horder
      rw [next_of_stop hm ho, next_of_stop hm' horder, step_of_stop hm ho, step_of_stop hm' horder]
      have he := h.entry h.blank h.tape instruction m.control (some reason)
      refine ⟨{ h with halt := rfl, log := ?_ }, rfl⟩
      -- A stop is logged as ending where it began, so the entries name both control points.
      simp only [stopWith, ← h.control]
      exact h.log_push he
    | go instruction write move next =>
      rw [ho] at horder
      rw [next_of_go hm ho, next_of_go hm' horder, step_of_go hm ho, step_of_go hm' horder]
      have hb : (m.tape.perform write move).blank = p.automaton.blank :=
        (m.tape.blank_perform write move).trans h.blank
      have ht := h.tape.perform write move
      refine ⟨?_, by rw [h.units]⟩
      exact { h with
        control := rfl
        blank := hb
        tape := ht
        stepCount := congrArg (· + 1) h.stepCount
        log := h.log_push (h.entry hb ht instruction next none) }

/-! ## Every call -/

theorem run (h : InStep p old m m') (bound : Nat) :
    InStep p old (m.run bound).1 (m'.run bound).1 ∧ (m.run bound).2 = (m'.run bound).2 := by
  refine run_together (Q := InStep p old) ?_ ?_ h bound
  · intro m m' h
    exact h.step.1
  · intro m m' h
    rw [h.step.2]

theorem withTape (h : InStep p old m m') (input : List Char) : InStep p old (m.withTape input) (m'.withTape input) where
  unit := h.unit
  unit' := h.unit'
  blank := (Tape.blank_ofList _ input).trans (congrArg Automaton.blank h.unit)
  control := h.control
  tape := by
    simp only [Machine.withTape, h.units]
    exact Tape.SameCells.refl _
  halt := h.halt
  stepCount := h.stepCount
  log := h.log

theorem reset (h : InStep p old m m') (hr : p.Interchangeable m.input m'.input) : InStep p [] m.reset m'.reset where
  unit := h.unit
  unit' := h.unit'
  blank := by
    simp only [Machine.reset, h.unit]
    exact p.blank_restart h.blank m.input
  control := congrArg Automaton.initial h.units
  tape := by
    simp only [Machine.reset, h.unit, h.unit']
    exact hr _ _ h.tape
  halt := rfl
  stepCount := rfl
  log := ⟨[], [], rfl, rfl, .nil⟩

/-- Both accept the input of a `load`, or both refuse it. -/
theorem load_cases (h : InStep p old m m') (input : String) :
    (m.after (.load input) = m ∧ m'.after (.load input) = m') ∨
      (m.after (.load input) = m.withTape input.toList ∧ m'.after (.load input) = m'.withTape input.toList) := by
  simp only [Machine.after, load, h.unit, h.unit']
  cases p.automaton.foreign? input.toList with
  | some found => exact .inl ⟨rfl, rfl⟩
  | none =>
    right
    simp only [Machine.withTape, h.unit, h.unit']
    exact ⟨rfl, rfl⟩

theorem after (h : InStep p old m m') (call : Call) (hr : call = .reset → p.Interchangeable m.input m'.input) :
    InStep p (if call = .reset then [] else old) (m.after call) (m'.after call) := by
  cases call with
  | step => exact h.step.1
  | run bound => exact (h.run bound).1
  | load input =>
    rcases h.load_cases input with ⟨hm, hm'⟩ | ⟨hm, hm'⟩
    · rw [hm, hm']
      exact h
    · rw [hm, hm']
      exact h.withTape input.toList
  | reset => exact h.reset (hr rfl)

theorem reply (h : InStep p old m m') (call : Call) : m.reply call = m'.reply call := by
  cases call with
  | step => exact congrArg Reply.outcome h.step.2
  | run bound => exact congrArg Reply.steps (h.run bound).2
  | load input => exact congrArg (Reply.loaded <| Automaton.foreign? · input.toList) h.units
  | reset => rfl

theorem interchangeable_after (h : InStep p old m m') (hr : p.Interchangeable m.input m'.input) (call : Call) :
    p.Interchangeable (m.after call).input (m'.after call).input := by
  cases call with
  | step => rwa [Machine.after, Machine.after, input_next, input_next]
  | run bound => rwa [Machine.after, Machine.after, input_run, input_run]
  | load input =>
    rcases h.load_cases input with ⟨hm, hm'⟩ | ⟨hm, hm'⟩
    · rwa [hm, hm']
    · rw [hm, hm']
      exact p.interchangeable_refl _
  | reset => exact hr

theorem afterAll {calls : List Call} (h : InStep p old m m')
    (hr : .reset ∈ calls → p.Interchangeable m.input m'.input) :
    InStep p (if .reset ∈ calls then [] else old) (m.afterAll calls) (m'.afterAll calls) ∧
      m.replies calls = m'.replies calls := by
  induction calls generalizing m m' old with
  | nil => exact ⟨h, rfl⟩
  | cons call calls ih =>
    have hcall := h.after call fun hc => hr (hc ▸ List.mem_cons_self)
    obtain ⟨hstep, hreplies⟩ := ih hcall fun hc => h.interchangeable_after (hr (List.mem_cons_of_mem _ hc)) call
    refine ⟨?_, ?_⟩
    · -- The log is cleared by the first call or by a later one.
      have hold : (if .reset ∈ calls then [] else if call = .reset then [] else old) =
          if .reset ∈ call :: calls then [] else old := by
        by_cases hc : call = .reset <;> simp [hc, eq_comm]
      rwa [hold] at hstep
    · rw [replies, replies, h.reply call, hreplies]

end InStep

/-- Both give the same back for each of the calls and are in step after them. A Turing machine's status and log
are then the same; of a Post machine's, all but the outer blanks of the snapshots taken since. -/
structure AlikeAfter (p : Program) (old : List LogEntry) (calls : List Call) (m m' : Machine p.Control) : Prop where
  replies : m.replies calls = m'.replies calls
  inStep : InStep p (if .reset ∈ calls then [] else old) (m.afterAll calls) (m'.afterAll calls)
  status : (m.afterAll calls).status.Agree p.kind (m'.afterAll calls).status
  turing : p.kind = .turing →
    (m.afterAll calls).status = (m'.afterAll calls).status ∧ (m.afterAll calls).log = (m'.afterAll calls).log

theorem InStep.alikeAfter {calls : List Call} (h : InStep p old m m')
    (hr : .reset ∈ calls → p.Interchangeable m.input m'.input) : AlikeAfter p old calls m m' := by
  obtain ⟨hstep, hreplies⟩ := h.afterAll hr
  refine ⟨hreplies, hstep, hstep.status, ?_⟩
  intro hp
  have hstatus := hstep.status
  obtain ⟨new, new', hnew, hnew', hagree⟩ := hstep.log
  rw [hp] at hstatus hagree
  -- Entries of a Turing machine that agree are equal.
  have hsame : new = new' := List.forall₂_eq_eq_eq ▸ hagree.imp fun _ _ h => h.eq
  refine ⟨hstatus.eq, Array.toList_inj.1 ?_⟩
  rw [hnew, hnew', hsame]

end Machine

/-! ## Starting again -/

namespace Automaton

variable {κ : Type}

/-- Only the first part of an input matters where the rest is admitted. -/
theorem foreign?_append (a : Automaton κ) {input more : List Char} (h : ∀ c ∈ more, a.admits c = true) :
    a.foreign? (input ++ more) = a.foreign? input := by
  simp only [foreign?, List.zipIdx_append, List.find?_append, Nat.zero_add]
  congr 1
  apply Option.or_eq_left_of_none
  rw [List.find?_eq_none]
  rintro ⟨c, i⟩ hc
  simp [h c (List.fst_mem_of_mem_zipIdx hc)]

end Automaton

theorem Program.admits_blank (p : Program) : p.automaton.admits p.automaton.blank = true := by
  cases p <;> rfl

/-- Blanks at the end of an input make no difference to whether it is refused, or for which symbol. -/
theorem Program.start_append (p : Program) (input : String) (k : Nat) :
    (∃ found, p.automaton.start input = .error found ∧
      p.automaton.start (input ++ String.ofList (List.replicate k p.automaton.blank)) = .error found) ∨
    (p.automaton.start input = .ok (p.automaton.on input.toList) ∧
      p.automaton.start (input ++ String.ofList (List.replicate k p.automaton.blank)) =
        .ok (p.automaton.on (input.toList ++ List.replicate k p.automaton.blank))) := by
  have hblanks : ∀ c ∈ List.replicate k p.automaton.blank, p.automaton.admits c = true := by
    intro c hc
    rw [List.eq_of_mem_replicate hc]
    exact p.admits_blank
  simp only [Automaton.start, String.toList_append, String.toList_ofList, p.automaton.foreign?_append hblanks]
  cases p.automaton.foreign? input.toList with
  | some found => exact .inl ⟨found, rfl, rfl⟩
  | none => exact .inr ⟨rfl, rfl⟩

/-- Machines at their start on the same cells are in step. -/
theorem Machine.inStep_onTape (p : Program) {t t' : Tape} (hb : t.blank = p.automaton.blank) (h : t.SameCells t')
    (input input' : List Char) : InStep p [] (p.automaton.onTape t input) (p.automaton.onTape t' input') where
  unit := rfl
  unit' := rfl
  blank := hb
  control := rfl
  tape := h
  halt := rfl
  stepCount := rfl
  log := ⟨[], [], rfl, rfl, .nil⟩

/-! ## Main theorem -/

/-- Calls do the same to two machines of one program that differ only in how much of the tape they have visited;
where a Turing machine is reset among them, which brings the input back, this must be the same up to blanks at
its end. So blanks at the end of an input change nothing, and a Post machine does after a reset what one does
that starts on the same cells. -/
theorem visited_bounds_inert (p : Program) :
    (∀ m m' : Machine p.Control, p.automaton.Reaches m → m.SameButVisited m' →
      ∀ calls, (p.kind = .turing → .reset ∉ calls) → Machine.AlikeAfter p m.log.toList calls m m') ∧
    (∀ (input : String) (k : Nat),
      let padded := input ++ String.ofList (List.replicate k p.automaton.blank)
      (∃ found, p.automaton.start input = .error found ∧ p.automaton.start padded = .error found) ∨
      ∃ m m', p.automaton.start input = .ok m ∧ p.automaton.start padded = .ok m' ∧
        ∀ calls, Machine.AlikeAfter p [] calls m m') ∧
    (p.kind = .post → ∀ m : Machine p.Control, p.automaton.Reaches m →
      ∀ (t : Tape) (input : List Char), t.head = 0 → (∀ q, t.get q = m.tape.get q) →
        ∀ calls, Machine.AlikeAfter p [] calls m.reset (p.automaton.onTape t input)) := by
  refine ⟨?visited, ?padded, ?restarted⟩
  case visited =>
    intro m m' hm h calls hcalls
    refine (h.inStep hm).alikeAfter fun hreset => ?_
    have hp : p.kind = .post := by
      cases hk : p.kind with
      | post => rfl
      | turing => exact absurd hreset (hcalls hk)
    exact Program.interchangeable_of_post hp m.input m'.input
  case padded =>
    intro input k
    rcases p.start_append input k with hrefused | ⟨hstart, hpadded⟩
    · exact .inl hrefused
    · refine .inr ⟨_, _, hstart, hpadded, fun calls => ?_⟩
      have hcells : (Tape.ofList p.automaton.blank input.toList).SameCells _ := Tape.SameCells.ofList_append _ _ k
      exact (Machine.inStep_onTape p (Tape.blank_ofList _ _) hcells _ _).alikeAfter fun _ =>
        p.interchangeable_append input.toList k
  case restarted =>
    intro hp m hm t input hhead hget calls
    have hcells : (p.automaton.restart m.tape m.input).SameCells t := by
      cases p with
      | post p =>
        refine ⟨(Tape.head_rewind m.tape).trans hhead.symm, fun q => ?_⟩
        exact (m.tape.get_rewind q).trans (hget q).symm
      | turing p => cases hp
    rw [Machine.reset_eq_onTape hm.unit]
    exact (Machine.inStep_onTape p (p.blank_restart (p.blank_of_reaches hm) _) hcells _ _).alikeAfter fun _ =>
      Program.interchangeable_of_post hp _ _

/-- A Post machine that has come back over two blanks after a reset, and a fresh one that has not seen them. -/
theorem visited_bounds_inert_two_blanks :
    let p : Program := .post ⟨[⟨1, "→ 2", .perform .right 2⟩, ⟨2, "→ 3", .perform .right 3⟩, ⟨3, "!", .halt⟩]⟩
    ∃ m m' : Machine p.Control, p.automaton.Reaches m ∧ m.SameButVisited m' ∧ m.reset = m ∧
      m.tape.rightmost = 2 ∧ m'.tape.rightmost = 0 ∧
      (m.afterAll [.step]).status.tape = "100" ∧ (m'.afterAll [.step]).status.tape = "10" ∧
      Machine.AlikeAfter p [] [.step] m m' ∧ Machine.AlikeAfter p [] [.run 5] m.reset m' := by
  intro p
  have hreach : p.automaton.Reaches ((p.automaton.on "1".toList).afterAll [.run 2, .reset]) :=
    ⟨"1", _, [.run 2, .reset], rfl, rfl⟩
  have hget : ∀ q, (Tape.ofList '0' "1".toList).get q =
      ((p.automaton.on "1".toList).afterAll [.run 2, .reset]).tape.get q := by
    intro q
    show _ = (Tape.rewind (Tape.move (Tape.move (Tape.ofList '0' "1".toList) .right) .right)).get q
    rw [Tape.get_rewind, Tape.get_move, Tape.get_move]
  obtain ⟨hvisited, -, hrestarted⟩ := visited_bounds_inert p
  have hsame : ((p.automaton.on "1".toList).afterAll [.run 2, .reset]).SameButVisited (p.automaton.on "1".toList) :=
    ⟨rfl, rfl, ⟨rfl, fun q => (hget q).symm⟩, rfl, rfl, rfl⟩
  exact ⟨_, _, hreach, hsame, rfl, by decide, by decide, by decide, by decide, hvisited _ _ hreach hsame [.step] nofun,
    hrestarted rfl _ hreach _ "1".toList rfl hget [.run 5]⟩

end TapeMachines
