import TapeMachines.Program
import TapeMachines.Proofs.Calls
/-!
# The log as a history

`Machine.Logged` says that a log is the whole history since the start: one entry for each step taken
and one for the stop, in order, each beginning where the one before it ended. Every call keeps it,
since a step or a stop adds one entry for what it did and all else adds none or clears the log. Main
statement: `log_tells_history`, for both kinds of program and any calls.
-/

namespace TapeMachines

namespace Machine

variable {κ : Type} {a : Automaton κ} {m m' : Machine κ}

/-- The log of `m`, a machine of `a`, tells what `m` did since its start. -/
structure Logged (a : Automaton κ) (m : Machine κ) : Prop where
  size : m.log.size = m.stepCount + if m.isHalted then 1 else 0
  step : ∀ (i : Nat) (e : LogEntry), m.log[i]? = some e → e.step = i
  first : ∀ e : LogEntry, m.log[0]? = some e → e.before = a.label a.initial
  link : ∀ (i : Nat) (d e : LogEntry), m.log[i]? = some d → m.log[i + 1]? = some e → e.before = d.after
  last : ∀ (i : Nat) (e : LogEntry), m.log[i]? = some e → i + 1 = m.log.size → e.after = a.label m.control
  empty : m.log = #[] → a.label a.initial = a.label m.control
  /-- Only the last entry may hold a halt, and it holds the machine's. -/
  halt : ∀ (i : Nat) (e : LogEntry), m.log[i]? = some e → e.halt = if i + 1 = m.log.size then m.halt else none
  still : ∀ (i : Nat) (e : LogEntry), m.log[i]? = some e → i + 1 = m.log.size → m.isHalted = true →
    e.before = e.after

theorem logged_of_start (hl : m.log = #[]) (hc : m.control = a.initial) (hs : m.stepCount = 0)
    (hh : m.halt = none) : Logged a m where
  size := by simp [hl, hs, isHalted, hh]
  step := by simp [hl]
  first := by simp [hl]
  link := by simp [hl]
  last := by simp [hl]
  empty := by simp [hc]
  halt := by simp [hl]
  still := by simp [hl]

/-- One entry more, for what led from `m` to `m'`. -/
theorem Logged.push (h : Logged a m) (hm : m.halt = none) {e : LogEntry} (hl : m'.log = m.log.push e)
    (hc : m'.stepCount + (if m'.isHalted then 1 else 0) = m.stepCount + 1) (hs : e.step = m.stepCount)
    (hb : e.before = a.label m.control) (ha : e.after = a.label m'.control) (hh : e.halt = m'.halt)
    (hd : m'.isHalted = true → e.before = e.after) : Logged a m' := by
  have hsize : m.log.size = m.stepCount := by rw [h.size]; simp [isHalted, hm]
  have hsize' : m'.log.size = m.log.size + 1 := by rw [hl, Array.size_push]
  -- An entry of the longer log is the new one in the last place, or an old one.
  have hget : ∀ {i d}, m'.log[i]? = some d →
      i = m.log.size ∧ d = e ∨ i < m.log.size ∧ m.log[i]? = some d := by
    intro i d hi
    rw [hl, Array.getElem?_push] at hi
    split at hi
    · exact .inl ⟨‹_›, (Option.some.inj hi).symm⟩
    · exact .inr ⟨(Array.getElem?_eq_some_iff.1 hi).1, hi⟩
  refine ⟨by omega, ?step, ?first, ?link, ?last, ?empty, ?halt, ?still⟩
  case step =>
    intro i d hi
    rcases hget hi with ⟨rfl, rfl⟩ | ⟨-, hi⟩
    · exact hs.trans hsize.symm
    · exact h.step i d hi
  case first =>
    intro d hi
    rcases hget hi with ⟨h0, rfl⟩ | ⟨-, hi⟩
    · rw [hb, h.empty (Array.size_eq_zero_iff.1 h0.symm)]
    · exact h.first d hi
  case link =>
    intro i c d hi hj
    rcases hget hi with ⟨rfl, rfl⟩ | ⟨-, hi⟩ <;> rcases hget hj with ⟨hi', rfl⟩ | ⟨hlt, hj⟩
    · omega
    · omega
    · rw [hb, h.last i c hi hi']
    · exact h.link i c d hi hj
  case last =>
    intro i d hi hlast
    rcases hget hi with ⟨-, rfl⟩ | ⟨hlt, -⟩
    · exact ha
    · omega
  case empty =>
    intro hempty
    rw [hempty] at hsize'
    exact absurd hsize' (by simp)
  case halt =>
    intro i d hi
    rcases hget hi with ⟨rfl, rfl⟩ | ⟨hlt, hi⟩
    · rw [hh, hsize', if_pos rfl]
    · rw [h.halt i d hi, hm, ite_self, if_neg (by omega)]
  case still =>
    intro i d hi hlast
    rcases hget hi with ⟨-, rfl⟩ | ⟨hlt, -⟩
    · exact hd
    · omega

/-! ## Every call keeps the log -/

theorem Logged.next (h : Logged a m) (hu : m.unit = a) : Logged a m.next := by
  subst hu
  refine m.next_cases (fun _ => h) (fun reason text hm _ => ?_) fun text write move next hm _ => ?_
  · exact h.push hm rfl rfl rfl rfl rfl rfl fun _ => rfl
  · have hn : (m.goOn text write move next).isHalted = false := by simp [goOn, isHalted, hm]
    refine h.push hm rfl ?_ rfl rfl rfl hm.symm fun hh => ?_
    · rw [hn]; rfl
    · rw [hn] at hh; cases hh

theorem Logged.withTape (h : Logged a m) (input : List Char) : Logged a (m.withTape input) :=
  ⟨h.size, h.step, h.first, h.link, h.last, h.empty, h.halt, h.still⟩

theorem logged_on (a : Automaton κ) (input : List Char) : Logged a (a.on input) :=
  logged_of_start rfl rfl rfl rfl

theorem logged_reset (hu : m.unit = a) : Logged a m.reset :=
  logged_of_start rfl (by rw [← hu]; rfl) rfl rfl

theorem Logged.afterAll (h : Logged a m) (hu : m.unit = a) (calls : List Call) :
    Logged a (m.afterAll calls) := by
  refine (inv_afterAll (I := fun m => m.unit = a ∧ Logged a m) ?_ ?_ ?_ ⟨hu, h⟩ calls).2
  · rintro m ⟨hu, h⟩
    exact ⟨m.unit_next.trans hu, h.next hu⟩
  · rintro m input ⟨hu, h⟩ -
    exact ⟨hu, h.withTape input⟩
  · rintro m ⟨hu, -⟩
    exact ⟨hu, logged_reset hu⟩

/-! ## What one call adds -/

/-- The entry of a step or a stop: what `status` shows just before it and just after it. -/
theorem exists_entry_of_step :
    m.step.2 ≠ .idle → ∃ e, m.next.log = m.log.push e ∧
      (e.step, e.before, e.read) = (m.status.stepCount, m.status.control, m.status.symbol) ∧
      (e.after, e.head, e.symbol, e.tape, e.origin) = (m.next.status.control, m.next.status.head,
        m.next.status.symbol, m.next.status.tape, m.next.status.origin) := by
  unfold Machine.next
  refine m.step_cases ?_ ?_ ?_
  · intro _ h; exact absurd rfl h
  · intro reason text _ _ _; exact ⟨_, rfl, rfl, rfl⟩
  · intro text write move next _ _ _; exact ⟨_, rfl, rfl, rfl⟩

theorem log_of_idle : m.step.2 = .idle → m.next.log = m.log := by
  unfold Machine.next
  refine m.step_cases ?_ ?_ ?_
  · intro _ _; rfl
  · intro reason text _ _ h; cases h
  · intro text write move next _ _ h; cases h

theorem log_after_load (m : Machine κ) (input : String) : (m.after (.load input)).log = m.log := by
  show ((m.load input).toOption.getD m).log = m.log
  cases he : m.load input with
  | error _ => rfl
  | ok m' =>
    obtain ⟨-, rfl⟩ := load_eq_ok_iff.1 he
    rfl

end Machine

/-! ## Main theorem -/

/-- After any calls on a machine that has started, its log tells its history. A step that is not idle
then adds one entry for what `status` shows before it and after it, and leaves the others; an idle
step and a new tape change no entry, and a reset leaves none. -/
theorem log_tells_history (p : Program) (input : String) (m₀ : Machine p.Control)
    (h : p.start input = .ok m₀) (calls : List Call) :
    let m := m₀.afterAll calls
    m.Logged p.automaton ∧
      (m.step.2 ≠ .idle → ∃ e, (m.after .step).log = m.log.push e ∧
        (e.step, e.before, e.read) = (m.status.stepCount, m.status.control, m.status.symbol) ∧
        (e.after, e.head, e.symbol, e.tape, e.origin) =
          ((m.after .step).status.control, (m.after .step).status.head, (m.after .step).status.symbol,
            (m.after .step).status.tape, (m.after .step).status.origin)) ∧
      (m.step.2 = .idle → (m.after .step).log = m.log) ∧
      (∀ tape, (m.after (.load tape)).log = m.log) ∧
      (m.after .reset).log = #[] := by
  obtain ⟨-, rfl⟩ := Automaton.start_eq_ok_iff.1 h
  have hl := Machine.logged_on p.automaton input.toList
  exact ⟨hl.afterAll rfl calls, Machine.exists_entry_of_step, Machine.log_of_idle, Machine.log_after_load _, rfl⟩

/-- A Post machine given a new tape between its step and its halt, and a tape that is refused. -/
theorem log_tells_history_across_tapes :
    let p : Program := .post ⟨[⟨1, "→ 2", .perform .right 2⟩, ⟨2, "!", .halt⟩]⟩
    let calls : List Call := [.step, .load "01", .load "x", .run 5, .step]
    ∃ m₀, p.start "1" = .ok m₀ ∧ (m₀.afterAll calls).Logged p.automaton ∧
      (m₀.afterAll calls).log.toList.map (·.head) = [1, 0] :=
  ⟨_, rfl, (log_tells_history _ "1" _ rfl _).1, by decide⟩

end TapeMachines
