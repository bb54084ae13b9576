import Mathlib.Data.List.Nodup
import TapeMachines.Proofs.CommandLine.Answers
import TapeMachines.Proofs.CommandLine.Arguments
/-!
# Ways to give a program

A listing comes from a file whose extension tells its kind, from a file with the kind beside it, from the standard
input with the kind beside it, or with a built-in program. All four end in the same reading of the same text
(`Program.ofListing`), with the same fault for one that is too long, and so in the same session. Main statement:
`sources_agree`.
-/

namespace TapeMachines.CommandLine

open Files

/-! ## Reading the text -/

theorem textOf_toUTF8 (listing : String) : textOf (.ok listing.toUTF8) = .ok listing := by
  have htext : String.fromUTF8? listing.toUTF8 = some listing := by
    unfold String.fromUTF8?
    rw [String.toUTF8_eq_toByteArray, dif_pos listing.isValidUTF8]
    rfl
  rw [textOf, htext]

variable {k : Kind} {listing : String}

theorem programInFile_none {path : Path} (hk : path.kind? = some k) :
    programInFile none path (.ok listing.toUTF8) = (Program.ofListing k listing).mapError .fault := by
  rw [programInFile, programAt, hk, textOf_toUTF8]

theorem programInFile_some (path : Path) :
    programInFile (some k) path (.ok listing.toUTF8) = (Program.ofListing k listing).mapError .fault := by
  rw [programInFile, textOf_toUTF8]

theorem programInStdin_some :
    programInStdin (some k) (some listing.toUTF8) = (Program.ofListing k listing).mapError .fault := by
  rw [programInStdin, textOf_toUTF8]

/-! ## Built-in programs -/

theorem ofName_of_lower {b : Builtin} (hb : b ∈ Builtin.all) {name : String}
    (hname : Builtin.lower name = Builtin.lower b.name) : Builtin.ofName name = .ok b := by
  have hdistinct : (Builtin.all.map fun b => Builtin.lower b.name).Nodup := by decide
  unfold Builtin.ofName
  cases hfind : Builtin.all.find? fun b' => Builtin.lower b'.name = Builtin.lower name with
  | none =>
    rw [List.find?_eq_none] at hfind
    exact absurd hname.symm (by simpa using hfind b hb)
  | some b' =>
    have hname' : Builtin.lower b'.name = Builtin.lower name := by simpa using List.find?_some hfind
    rw [List.inj_on_of_nodup_map hdistinct (List.mem_of_find?_eq_some hfind) hb (hname'.trans hname)]

theorem isValue_tape {b : Builtin} (hb : b ∈ Builtin.all) : Reader.isValue b.tape.toList = true := by
  have h : ∀ b ∈ Builtin.all, Reader.isValue b.tape.toList = true := by decide
  exact h b hb

theorem ofListing_builtin {b : Builtin} (hb : b ∈ Builtin.all) : Program.ofListing b.kind b.listing = .ok b.program := by
  have hsize : ∀ b ∈ Builtin.all, ¬maxListingSize < b.listing.utf8ByteSize := by decide +kernel
  rw [Program.ofListing, if_neg (hsize b hb), Builtin.program]

/-- No letter case of a built-in program's name looks like an option. -/
theorem isValue_of_lower {b : Builtin} (hb : b ∈ Builtin.all) {name : String}
    (hname : Builtin.lower name = Builtin.lower b.name) : Reader.isValue name.toList = true := by
  have hdash : ∀ b ∈ Builtin.all, (Builtin.lower b.name).head? ≠ some '-' := by decide
  unfold Builtin.lower at hname
  unfold Reader.isValue
  split
  · next rest h =>
    refine absurd ?_ (hdash b hb)
    rw [Builtin.lower, ← hname, h]
    rfl
  · rfl

/-! ## What is loaded -/

/-- The program in a listing, with the input that the options give. -/
def listed (o : Options) (k : Kind) (listing : String) : Except Failure (Program × String) :=
  ((Program.ofListing k listing).mapError .fault).map fun p => (p, o.input.getD "")

variable {o : Options} {name : String} {read : Path → Except Cause ByteArray} {stdin : Option ByteArray}

/-- The file with this name holds the listing. -/
def Holds (read : Path → Except Cause ByteArray) (name listing : String) : Prop :=
  read name.toUTF8.toList = .ok listing.toUTF8

theorem loaded_of_extension (ho : o.Sourceless) (hk : Path.kind? name.toUTF8.toList = some k)
    (hread : Holds read name listing) : loaded { o with program := some name } read stdin = listed o k listing := by
  unfold Holds at hread
  simp only [loaded, load, ho.builtin, ho.kind, hread, programInFile_none hk, listed]
  cases Program.ofListing k listing <;> rfl

theorem loaded_of_kind (ho : o.Sourceless) (hread : Holds read name listing) :
    loaded { o with program := some name, kind := some k } read stdin = listed o k listing := by
  unfold Holds at hread
  simp only [loaded, load, ho.builtin, hread, programInFile_some, listed]
  cases Program.ofListing k listing <;> rfl

theorem loaded_of_stdin (hprogram : o.program = none) (hbuiltin : o.builtin = none) :
    loaded { o with kind := some k } read (some listing.toUTF8) = listed o k listing := by
  simp only [loaded, load, hbuiltin, hprogram, programInStdin_some, listed]
  cases Program.ofListing k listing <;> rfl

theorem loaded_of_builtin {b : Builtin} (hb : b ∈ Builtin.all) (hname : Builtin.lower name = Builtin.lower b.name) :
    loaded { o with builtin := some name } read stdin = .ok (b.program, o.input.getD b.tape) := by
  simp only [loaded, load, ofName_of_lower hb hname]
  rfl

/-- A built-in program is what its listing holds. -/
theorem listed_builtin {b : Builtin} (hb : b ∈ Builtin.all) :
    listed o b.kind b.listing = .ok (b.program, o.input.getD "") := by
  rw [listed, ofListing_builtin hb]
  rfl

/-! ## Main theorem -/

/-- Command lines that differ in how they give a listing, and in nothing else, are answered alike: in the file
`name` with an extension that tells the kind, in a file with the kind given, or piped in. A built-in program is
answered as its listing piped in with its kind and tape. Whatever `flags` say of the input, the bound and the
report, each of these can be asked for behind them. -/
theorem sources_agree (o : Options) (ho : o.Sourceless) (usage : Usage) :
    (∀ (k : Kind) (listing name : String) (args piped : List String) (read read' : Path → Except Cause ByteArray)
        (stdin : Option ByteArray), Holds read name listing →
      (Options.read args = .ok { o with program := some name } ∧ Path.kind? name.toUTF8.toList = some k ∨
        Options.read args = .ok { o with program := some name, kind := some k }) →
      Options.read piped = .ok { o with kind := some k } →
      session args read stdin usage = session piped read' (some listing.toUTF8) usage) ∧
    (o.input = none → ∀ b ∈ Builtin.all, ∀ (name : String) (args piped : List String)
        (read read' : Path → Except Cause ByteArray) (stdin : Option ByteArray), Builtin.lower name = Builtin.lower b.name →
      Options.read args = .ok { o with builtin := some name } →
      Options.read piped = .ok { o with kind := some b.kind, input := some b.tape } →
      session args read stdin usage = session piped read' (some b.listing.toUTF8) usage) ∧
    ∀ flags, Reads flags o →
      (∀ name, Reader.isValue name.toList = true →
        Options.read (flags ++ ["--program", name]) = .ok { o with program := some name } ∧
        ∀ k : Kind, Options.read (flags ++ ["--program", name, "--kind", k.name]) =
          .ok { o with program := some name, kind := some k }) ∧
      (∀ k : Kind, Options.read (flags ++ ["--kind", k.name]) = .ok { o with kind := some k }) ∧
      ∀ b ∈ Builtin.all,
        (∀ name, Builtin.lower name = Builtin.lower b.name →
          Options.read (flags ++ ["--builtin", name]) = .ok { o with builtin := some name }) ∧
        (o.input = none → Options.read (flags ++ ["--kind", b.kind.name, "--input", b.tape]) =
          .ok { o with kind := some b.kind, input := some b.tape }) := by
  refine ⟨?listings, ?builtins, ?arguments⟩
  case listings =>
    intro k listing name args piped read read' stdin hread hargs hpiped
    have hstdin : loaded { o with kind := some k } read' (some listing.toUTF8) = listed o k listing :=
      loaded_of_stdin ho.program ho.builtin
    rw [session_of_read hpiped]
    rcases hargs with ⟨hargs, hk⟩ | hargs
    · rw [session_of_read hargs]
      refine answer_congr ho.list rfl ?_
      rw [hstdin]
      exact loaded_of_extension ho hk hread
    · rw [session_of_read hargs]
      refine answer_congr ho.list rfl ?_
      rw [hstdin]
      exact loaded_of_kind ho hread
  case builtins =>
    intro hinput b hb name args piped read read' stdin hname hargs hpiped
    rw [session_of_read hargs, session_of_read hpiped]
    refine answer_congr ho.list rfl ?_
    have hstdin : loaded { o with kind := some b.kind, input := some b.tape } read' (some b.listing.toUTF8) =
        listed { o with input := some b.tape } b.kind b.listing :=
      loaded_of_stdin (o := { o with input := some b.tape }) ho.program ho.builtin
    rw [loaded_of_builtin hb hname, hstdin, listed_builtin hb, hinput]
    rfl
  case arguments =>
    intro flags hflags
    refine ⟨fun name hname => ⟨hflags.read_program ho hname, hflags.read_program_kind ho hname⟩, hflags.read_kind ho,
      fun b hb => ⟨fun name hname => ?_, fun hinput => ?_⟩⟩
    · exact hflags.read_builtin ho (isValue_of_lower hb hname)
    · exact hflags.read_kind_input ho hinput b.kind (isValue_tape hb)

/-- A listing in a file, in a file with another extension, and piped in; and a built-in program in capitals. -/
theorem sources_agree_on_count :
    let o : Options := { maxSteps := some 7, debug := true }
    let flags := ["-dm", "7"]
    let listing := "1. 1 2\n2. !\n"
    let read := fun _ => .ok listing.toUTF8
    o.Sourceless ∧ Reads flags o ∧ Holds read "d/count.post" listing ∧ Holds read "d/count.txt" listing ∧
      session (flags ++ ["--program", "d/count.post"]) read none =
        session (flags ++ ["--kind", "post"]) read (some listing.toUTF8) ∧
      session (flags ++ ["--program", "d/count.txt", "--kind", "post"]) read (some .empty) =
        session (flags ++ ["--kind", "post"]) read (some listing.toUTF8) ∧
      session (flags ++ ["--builtin", "BINARY INCREMENT"]) read none =
        session (flags ++ ["--kind", "turing", "--input", "1011"]) read
          (some Builtin.binaryIncrement.listing.toUTF8) := by
  intro o flags listing read
  have ho : o.Sourceless := ⟨rfl, rfl, rfl, rfl⟩
  have hflags : Reads flags o := rfl
  have hb : Builtin.binaryIncrement ∈ Builtin.all := by simp [Builtin.all]
  have hname : Builtin.lower "BINARY INCREMENT" = Builtin.lower Builtin.binaryIncrement.name := by decide
  obtain ⟨hlistings, hbuiltins, harguments⟩ := sources_agree o ho {}
  obtain ⟨hfile, hpiped, hbuiltin⟩ := harguments flags hflags
  refine ⟨ho, hflags, rfl, rfl, ?_, ?_, ?_⟩
  · exact hlistings .post listing _ _ _ read read none rfl (.inl ⟨(hfile "d/count.post" rfl).1, by decide +kernel⟩)
      (hpiped .post)
  · exact hlistings .post listing _ _ _ read read (some .empty) rfl (.inr ((hfile "d/count.txt" rfl).2 .post))
      (hpiped .post)
  · exact hbuiltins rfl _ hb "BINARY INCREMENT" _ _ read read none hname ((hbuiltin _ hb).1 _ hname)
      ((hbuiltin _ hb).2 rfl)

end TapeMachines.CommandLine
