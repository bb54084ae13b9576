import TapeMachines.CommandLine.Options
/-!
# Reading arguments one after the other

`Reads args o` says that some arguments, read to their end, give the options `o` and wait for no value. A setting
and its value may follow such arguments (`Reads.setting`), and so long lists are read from shorter ones. When
nothing more follows, `o` is what the command line asks for (`Reads.read`).
-/

namespace TapeMachines.CommandLine

/-- The argument that announces the value of a setting. -/
def Setting.option : Setting → String
  | .program => "--program"
  | .kind => "--kind"
  | .builtin => "--builtin"
  | .input => "--input"
  | .maxSteps => "--max-steps"

def Reads (args : List String) (o : Options) : Prop :=
  args.foldlM (fun (r : Reader) arg => r.argument arg.toList) Reader.start = .ok ⟨o, none, false⟩

theorem argument_option (o : Options) (s : Setting) :
    Reader.argument ⟨o, none, false⟩ s.option.toList = .ok ⟨o, some s, false⟩ := by
  cases s <;> rfl

theorem argument_value {o o' : Options} {s : Setting} {value : List Char} (hvalue : Reader.isValue value = true)
    (hset : o.set? s value = some o') : Reader.argument ⟨o, some s, false⟩ value = .ok ⟨o', none, false⟩ := by
  simp [Reader.argument, hvalue, Reader.set, hset, Reader.orMisuse, Except.map]

variable {args : List String} {o o' : Options}

theorem Reads.setting (h : Reads args o) {s : Setting} {value : String} (hvalue : Reader.isValue value.toList = true)
    (hset : o.set? s value.toList = some o') : Reads (args ++ [s.option, value]) o' := by
  unfold Reads at h ⊢
  rw [List.foldlM_append, h]
  simp only [bind, Except.bind, List.foldlM_cons, List.foldlM_nil, argument_option, argument_value hvalue hset]
  rfl

theorem Reads.read (h : Reads args o) (hne : o ≠ {}) (hone : o.program = none ∨ o.builtin = none) :
    Options.read args = .ok o := by
  unfold Reads at h
  rw [Options.read, h]
  rcases hone with hone | hone <;> simp [Reader.finish, hne, hone]

/-- No program is asked for, and no list of programs. -/
structure Options.Sourceless (o : Options) : Prop where
  program : o.program = none
  kind : o.kind = none
  builtin : o.builtin = none
  list : o.list = false

/-! ## One more setting -/

section Settings

variable (h : Reads args o)

include h

theorem Reads.program (hnone : o.program = none) {name : String} (hname : Reader.isValue name.toList = true) :
    Reads (args ++ ["--program", name]) { o with program := some name } :=
  h.setting (s := .program) hname (by simp [Options.set?, Options.once, hnone])

theorem Reads.kind (hnone : o.kind = none) (k : Kind) :
    Reads (args ++ ["--kind", k.name]) { o with kind := some k } := by
  have hvalue : Reader.isValue k.name.toList = true := by cases k <;> rfl
  have hname : Kind.ofName? k.name = some k := by cases k <;> rfl
  exact h.setting (s := .kind) hvalue (by simp [Options.set?, Options.once, hnone, hname])

theorem Reads.builtin (hnone : o.builtin = none) {name : String} (hname : Reader.isValue name.toList = true) :
    Reads (args ++ ["--builtin", name]) { o with builtin := some name } :=
  h.setting (s := .builtin) hname (by simp [Options.set?, Options.once, hnone])

theorem Reads.input (hnone : o.input = none) {input : String} (hinput : Reader.isValue input.toList = true) :
    Reads (args ++ ["--input", input]) { o with input := some input } :=
  h.setting (s := .input) hinput (by simp [Options.set?, Options.once, hnone])

end Settings

/-! ## Sources behind other options -/

section Sources

variable (h : Reads args o) (ho : o.Sourceless)

include h ho

theorem Reads.read_program {name : String} (hname : Reader.isValue name.toList = true) :
    Options.read (args ++ ["--program", name]) = .ok { o with program := some name } :=
  (h.program ho.program hname).read (fun he => nomatch congrArg Options.program he) (.inr ho.builtin)

theorem Reads.read_kind (k : Kind) :
    Options.read (args ++ ["--kind", k.name]) = .ok { o with kind := some k } :=
  (h.kind ho.kind k).read (fun he => nomatch congrArg Options.kind he) (.inl ho.program)

theorem Reads.read_builtin {name : String} (hname : Reader.isValue name.toList = true) :
    Options.read (args ++ ["--builtin", name]) = .ok { o with builtin := some name } :=
  (h.builtin ho.builtin hname).read (fun he => nomatch congrArg Options.builtin he) (.inl ho.program)

theorem Reads.read_program_kind {name : String} (hname : Reader.isValue name.toList = true) (k : Kind) :
    Options.read (args ++ ["--program", name, "--kind", k.name]) =
      .ok { o with program := some name, kind := some k } := by
  have hboth := (h.program ho.program hname).kind ho.kind k
  rw [List.append_assoc] at hboth
  exact hboth.read (fun he => nomatch congrArg Options.program he) (.inr ho.builtin)

theorem Reads.read_kind_input (hnone : o.input = none) (k : Kind) {input : String}
    (hinput : Reader.isValue input.toList = true) :
    Options.read (args ++ ["--kind", k.name, "--input", input]) =
      .ok { o with kind := some k, input := some input } := by
  have hboth := (h.kind ho.kind k).input hnone hinput
  rw [List.append_assoc] at hboth
  exact hboth.read (fun he => nomatch congrArg Options.kind he) (.inl ho.program)

end Sources

end TapeMachines.CommandLine
