import TapeMachines.Proofs.CommandLine.Answers
import TapeMachines.Proofs.Json.Codec
import TapeMachines.Proofs.Reach
import TapeMachines.Proofs.Runs
/-!
# Documents

What is written as JSON can be read back: each encoded value in either layout, and the report of a run as the
command line prints it. A report is `Plain`, and the line end behind it is white space to a reader; its status
and log entries then decode where they fit into 64 bits, which they do unless the run or its input is longer than
any integer counts. Main statement: `documents_come_back`.
-/

namespace TapeMachines.CommandLine

open Files Json

/-! ## Reports -/

theorem Report.plain_toJson (r : Report) : r.toJson.Plain := by
  have hlog : ∀ j ∈ r.log.map LogEntry.toJson, j.Plain := by
    intro j hj
    obtain ⟨e, -, rfl⟩ := List.mem_map.1 hj
    exact e.plain_toJson
  refine .obj ?_
  simp [Plain.int, plain_ofOption Halt.plain_toJson, Status.plain_toJson, Plain.arr hlog]

theorem lines_singleton (line : String) : lines [line] = String.ofList (line.toList ++ ['\n']) := by
  rw [← String.toList_inj, String.toList_ofList]
  simp [lines]

theorem Report.parse?_text {o : Options} (h : o.json = true) (r : Report) :
    parse? (r.text o) = some r.toJson := by
  rw [text, if_pos h, lines_singleton, pretty, String.toList_ofList]
  exact r.plain_toJson.parse?_render Layout.blank_pretty (by simp [isBlank])

/-! ## What fits into 64 bits -/

theorem inRange_of_withinReach {p : Program} {n : Nat} {m : Machine p.Control} (h : m.WithinReach n)
    (hstatus : m.status.snapshot.WithinReach n m.stepCount) (hsteps : m.stepCount ≤ maxInteger) (hn : n ≤ maxInteger) :
    m.status.InRange ∧ ∀ e ∈ m.log, e.InRange := by
  have hmax : maxInteger ≤ Text.maxNatural := by decide
  have hfits {v : Snapshot} (hv : v.WithinReach n m.stepCount) : IsInteger v.head ∧ IsInteger v.origin := by
    obtain ⟨hhead, horigin⟩ := hv
    unfold IsInteger
    omega
  constructor
  · obtain ⟨hhead, horigin⟩ := hfits hstatus
    exact ⟨show m.stepCount ≤ Text.maxNatural by omega, hhead, horigin⟩
  · intro e he
    obtain ⟨hstep, hsnapshot⟩ := h.log e he
    obtain ⟨hhead, horigin⟩ := hfits hsnapshot
    exact ⟨by omega, hhead, horigin⟩

/-! ## What a document tells -/

/-- The fields of a document that tells of `m`: its status, and the entries of its log one by one. -/
structure Describes {κ : Type} (m : Machine κ) (fields : List (String × Json)) : Prop where
  status : m.status.InRange → (fields.lookup "status").bind Status.ofJson? = some m.status
  log : ∃ items, fields.lookup "log" = some (.arr items) ∧
    items.Forall₂ (fun item e => e.InRange → LogEntry.ofJson? item = some e) m.log.toList

theorem describes_report {κ : Type} (o : Options) (m : Machine κ) :
    ∃ fields, (o.report m).toJson = .obj fields ∧
      Describes (m.run (o.maxSteps.getD Machine.defaultMaxSteps)).1 fields := by
  refine ⟨_, rfl, fun h => Status.ofJson?_toJson h, _, rfl, ?_⟩
  rw [List.forall₂_map_left_iff]
  exact List.forall₂_same.2 fun e _ he => LogEntry.ofJson?_toJson he

/-! ## Main theorem -/

/-- Every encoded value comes back, and so do the status and the log that a session prints as JSON. -/
theorem documents_come_back :
    (∀ s : Status, s.InRange → ComesBack Status.toJson Status.ofJson? s) ∧
    (∀ e : LogEntry, e.InRange → ComesBack LogEntry.toJson LogEntry.ofJson? e) ∧
    (∀ r : Turing.Rule, ComesBack Turing.Rule.toJson Turing.Rule.ofJson? r) ∧
    (∀ h : Halt, ComesBack Halt.toJson Halt.ofJson? h) ∧
    (∀ d : Direction, ComesBack Direction.toJson Direction.ofJson? d) ∧
    (∀ k : Kind, ComesBack Kind.toJson Kind.ofJson? k) ∧
    ∀ (args : List String) (read : Path → Except Cause ByteArray) (stdin : Option ByteArray) (usage : Usage)
      (o : Options),
      Options.read args = .ok o → o.json = true → o.list = false → (session args read stdin usage).code = 0 →
      ∃ (p : Program) (tape : String) (m₀ : Machine p.Control), load o read stdin = .ok (p, tape) ∧
        p.start (o.input.getD tape) = .ok m₀ ∧
        let m := (m₀.run (o.maxSteps.getD Machine.defaultMaxSteps)).1
        (∃ fields, parse? (session args read stdin usage).stdout = some (.obj fields) ∧ Describes m fields) ∧
        (m.stepCount ≤ maxInteger → (o.input.getD tape).length ≤ maxInteger →
          m.status.InRange ∧ ∀ e ∈ m.log, e.InRange) := by
  refine ⟨fun s h => ?_, fun e h => ?_, fun r => ?_, fun h => ?_, fun d => ?_, fun k => ?_, ?_⟩
  · exact comesBack s.plain_toJson (Status.ofJson?_toJson h)
  · exact comesBack e.plain_toJson (LogEntry.ofJson?_toJson h)
  · exact comesBack r.plain_toJson r.ofJson?_toJson
  · exact comesBack h.plain_toJson h.ofJson?_toJson
  · exact comesBack (.str d.name) d.ofJson?_toJson
  · exact comesBack (.str k.title) k.ofJson?_toJson
  · intro args read stdin usage o ho hjson hlist hcode
    rw [session_of_read ho] at hcode ⊢
    obtain ⟨p, tape, m₀, hload, hstart, hanswer⟩ := exists_run_of_code hlist hcode
    obtain ⟨fields, hfields, hdescribes⟩ := describes_report o m₀
    obtain ⟨-, rfl⟩ := Automaton.start_eq_ok_iff.1 hstart
    refine ⟨p, tape, _, hload, hstart, ⟨fields, ?_, hdescribes⟩, ?_⟩
    · rw [hanswer, Report.parse?_text hjson, hfields]
    · intro hsteps hinput
      obtain ⟨hreach, hstatus⟩ := p.withinReach_run (o.input.getD tape).toList (o.maxSteps.getD Machine.defaultMaxSteps)
      exact inRange_of_withinReach hreach hstatus hsteps (by rwa [String.length_toList])

/-- A status and an entry at the ends of 64 bits with characters that are escaped, and a session that halts. -/
theorem documents_come_back_at_limits :
    let s : Status := ⟨"\"\\\n\u0000", -0x8000000000000000, '"', true, 0xFFFFFFFFFFFFFFFF, "é\u001f", 0x7FFFFFFFFFFFFFFF⟩
    let e : LogEntry :=
      ⟨0, "1", '\\', "", "1", 0x7FFFFFFFFFFFFFFF, '\t', "→", -0x8000000000000000, some .malformedOperands⟩
    let args := ["--builtin", "unary increment", "--input", "1", "--json"]
    ∃ o, Options.read args = .ok o ∧ (session args (fun _ => .error .notFound) none).code = 0 ∧
      (s.InRange ∧ ComesBack Status.toJson Status.ofJson? s) ∧
      (e.InRange ∧ ComesBack LogEntry.toJson LogEntry.ofJson? e) ∧
      ∃ (p : Program) (tape : String) (m₀ : Machine p.Control),
        load o (fun _ => .error .notFound) none = .ok (p, tape) ∧ p.start (o.input.getD tape) = .ok m₀ ∧
        let m := (m₀.run Machine.defaultMaxSteps).1
        (∃ fields, parse? (session args (fun _ => .error .notFound) none).stdout = some (.obj fields) ∧
          Describes m fields) ∧
        (m.stepCount ≤ maxInteger ∧ m.status.InRange ∧ ∀ e ∈ m.log, e.InRange) := by
  intro s e args
  have hs : s.InRange := ⟨by decide, by decide, by decide⟩
  have he : e.InRange := ⟨by decide, by decide, by decide⟩
  have hcode : (session args (fun _ => .error .notFound) none).code = 0 := rfl
  obtain ⟨hstatus, hentry, -, -, -, -, hsession⟩ := documents_come_back
  obtain ⟨p, tape, m₀, hload, hstart, hdocument, hrange⟩ :=
    hsession args (fun _ => .error .notFound) none {}
      ⟨none, none, some "unary increment", some "1", none, false, true, false, false⟩ rfl rfl rfl hcode
  obtain ⟨-, rfl⟩ := Automaton.start_eq_ok_iff.1 hstart
  have hsteps : ((p.automaton.on "1".toList).run Machine.defaultMaxSteps).1.stepCount ≤ maxInteger := by
    have hbound : _ ≤ 0 + Machine.defaultMaxSteps := (p.automaton.on "1".toList).stepCount_run_le _
    exact Int.le_trans (Int.ofNat_le.2 hbound) (by decide)
  exact ⟨_, rfl, hcode, ⟨hs, hstatus s hs⟩, ⟨he, hentry e he⟩, p, tape, _, hload, hstart, hdocument,
    hsteps, hrange hsteps (show ("1".length : Int) ≤ maxInteger by decide)⟩

end TapeMachines.CommandLine
