import Mathlib.Logic.Relation
import TapeMachines.Program
import TapeMachines.Proofs.Post.Words
import TapeMachines.Proofs.Text.Layout
/-!
# Layout of a listing

A listing is read from what its lines say, so the ends of its lines and the white space around them leave the program
as it was, the texts of ignored lines included (`ofText_of_relaid`). Gaps between words can be wider or narrower:
a Post line has the same words, label or not, and a Turing line is the same rule, a comment or ignored as before
(`words_of_respaced`, `line_of_respaced`); only the text kept of an ignored line then changes. Main statement:
`layout_is_free`.
-/

namespace TapeMachines

open Relation Text

/-- The texts are one another's up to the ends of their lines and the white space around these. -/
def SameLines : String → String → Prop := ReflTransGen fun t t' => Relaid t.toList t'.toList

/-- The texts are one another's up to line ends, white space around lines and the widths of gaps. -/
def SameWords : String → String → Prop :=
  ReflTransGen fun t t' => Relaid t.toList t'.toList ∨ Respaced t.toList t'.toList

variable {t t' : String} {line line' : List Char}

theorem SameLines.sameWords (h : SameLines t t') : SameWords t t' := ReflTransGen.mono (fun _ _ => Or.inl) t t' h

theorem ofText_of_relaid (h : Relaid t.toList t'.toList) (kind : Kind) :
    Program.ofText kind t' = Program.ofText kind t := by
  cases kind with
  | post => simp only [Program.ofText, Post.Program.ofText, h.numbered_eq]
  | turing => simp only [Program.ofText, Turing.Program.ofText, h.numbered_eq]

/-! ## Wider and narrower gaps -/

namespace Post

theorem words_of_respaced (h : Respaced line line') : words (dropLabel line) = words (dropLabel line') := by
  cases h with
  | gap before gap gap' after hne hne' hgap =>
    have hdrop : ∀ {row : List Char}, row ≠ [] → (∀ c ∈ row, isGap c = true) →
        words (dropLabel (before ++ row ++ after)) = words (dropLabel before) ++ words after := by
      intro row hrow h
      rw [← words_append_gaps hrow h]
      obtain ⟨c, row, rfl⟩ := List.exists_cons_of_ne_nil hrow
      rw [List.append_assoc, List.cons_append, dropLabel_append_gap (h c List.mem_cons_self), List.append_assoc,
        List.cons_append]
    obtain ⟨hold, hnew⟩ := List.forall_mem_append.1 hgap
    rw [hdrop hne hold, hdrop hne' hnew]

theorem ofText_of_respaced (h : Respaced t.toList t'.toList) : Program.ofText t' = Program.ofText t := by
  refine congrArg Program.mk (Eq.symm ?_)
  rw [← List.filterMap_eq_map]
  refine filterMap_eq_of_forall₂ ?_ h.numbered
  rintro ⟨n, line⟩ ⟨m, line'⟩ ⟨hn, heq | hline⟩
  · rw [Prod.ext hn heq]
  · obtain rfl : n = m := hn
    simp only [Function.comp_apply, Instruction.ofLine, words_of_respaced hline]

end Post

namespace Turing

/-- A line that begins with a gap is no comment, and another gap leaves what any other line begins with. -/
theorem line_of_respaced (h : Respaced line line') : Line.of line = Line.of line' := by
  have hcomment : line.head? = some '#' ↔ line'.head? = some '#' := by
    cases h with
    | gap before gap gap' after hne hne' hgap =>
      cases before with
      | nil =>
        have hno : '#' ∉ gap ++ gap' := fun hc => absurd (hgap _ hc) (by decide)
        obtain ⟨c, gap, rfl⟩ := List.exists_cons_of_ne_nil hne
        obtain ⟨c', gap', rfl⟩ := List.exists_cons_of_ne_nil hne'
        simp only [List.mem_append, List.mem_cons, not_or] at hno
        simp [Ne.symm hno.1.1, Ne.symm hno.2.1]
      | cons c before => simp
  simp only [Line.of, hcomment, h.words_eq]

theorem ofText_of_respaced (h : Respaced t.toList t'.toList) :
    (Program.ofText t').rules = (Program.ofText t).rules ∧
      (Program.ofText t').ignored.map (·.1) = (Program.ofText t).ignored.map (·.1) := by
  have hread : List.Forall₂ (fun x y => x.1 = y.1 ∧ Line.of x.2 = Line.of y.2) (numbered (lines t.toList))
      (numbered (lines t'.toList)) := by
    refine h.numbered.imp ?_
    rintro x y ⟨hn, heq | hline⟩
    · exact ⟨hn, by rw [heq]⟩
    · exact ⟨hn, line_of_respaced hline⟩
  constructor
  · refine (filterMap_eq_of_forall₂ ?_ hread).symm
    rintro x y ⟨-, hline⟩
    exact congrArg Line.rule? hline
  · simp only [Program.ofText, Program.ofNumbered, List.map_filterMap]
    refine (filterMap_eq_of_forall₂ ?_ hread).symm
    rintro ⟨n, line⟩ ⟨_, line'⟩ ⟨rfl, hline⟩
    obtain hline : Line.of line = Line.of line' := hline
    simp only [ignoredLine?, hline]
    split <;> rfl

end Turing

/-! ## Main theorem -/

/-- Line ends and the white space around lines make no difference to what is read, and the widths of gaps make one to
the texts of ignored lines alone. -/
theorem layout_is_free (t t' : String) :
    (SameLines t t' → ∀ kind, Program.ofText kind t' = Program.ofText kind t) ∧
    (SameWords t t' → Post.Program.ofText t' = Post.Program.ofText t ∧
      (Turing.Program.ofText t').rules = (Turing.Program.ofText t).rules ∧
      (Turing.Program.ofText t').ignored.map (·.1) = (Turing.Program.ofText t).ignored.map (·.1)) := by
  constructor
  · intro h kind
    induction h with
    | refl => rfl
    | tail _ hstep ih => exact (ofText_of_relaid hstep kind).trans ih
  · intro h
    induction h with
    | refl => exact ⟨rfl, rfl, rfl⟩
    | tail _ hstep ih =>
      obtain ⟨hpost, hrules, hignored⟩ := ih
      rcases hstep with hstep | hstep
      · have hsame := ofText_of_relaid hstep
        have hpost' := Program.post.inj (hsame .post)
        have hturing' := Program.turing.inj (hsame .turing)
        rw [hpost', hturing']
        exact ⟨hpost, hrules, hignored⟩
      · obtain ⟨hrules', hignored'⟩ := Turing.ofText_of_respaced hstep
        exact ⟨(Post.ofText_of_respaced hstep).trans hpost, hrules'.trans hrules, hignored'.trans hignored⟩

/-- A listing with carriage returns, a line feed at its end and a no-break space before one of its carriage returns,
and then with a narrower gap in the line that is no rule. -/
theorem layout_is_free_with_returns :
    let t := "1 \t2\n0 1 0 1 R"
    let t' := "1 \t2\u00a0\r\n0 1 0 1 R\n"
    let t'' := "1\t2\u00a0\r\n0 1 0 1 R\n"
    SameLines t t' ∧ (∀ kind, Program.ofText kind t' = Program.ofText kind t) ∧ SameWords t t'' ∧
      Post.Program.ofText t'' = Post.Program.ofText t ∧
      (Turing.Program.ofText t'').rules = (Turing.Program.ofText t).rules ∧
      (Turing.Program.ofText t'').ignored.map (·.1) = (Turing.Program.ofText t).ignored.map (·.1) := by
  intro t t' t''
  have hreturns : Relaid t.toList "1 \t2\r\n0 1 0 1 R".toList := by
    rw [show "1 \t2\r\n0 1 0 1 R".toList = withReturns t.toList by decide]
    exact .returns _
  have hnewline : Relaid "1 \t2\r\n0 1 0 1 R".toList "1 \t2\r\n0 1 0 1 R\n".toList := by
    rw [show "1 \t2\r\n0 1 0 1 R\n".toList = "1 \t2\r\n0 1 0 1 R".toList ++ ['\n'] by decide]
    exact .newline _
  have hspace : Relaid "1 \t2\r\n0 1 0 1 R\n".toList t'.toList := by
    have hline : LineAt [] ("1 \t2".toList ++ ['\r']) ('\n' :: "0 1 0 1 R\n".toList) :=
      ⟨.inl rfl, by decide, .inr ⟨_, rfl⟩⟩
    have h := Relaid.space _ _ ['\u00a0'] _ _ hline (by simp [isSpace]) (.inr (List.all_eq_true.1 rfl))
    convert h using 1 <;> decide
  have hgap : Respaced t'.toList t''.toList := by
    have hrows : ∀ c ∈ [' ', '\t'] ++ ['\t'], isGap c = true := List.all_eq_true.1 rfl
    have h := Respaced.gap ['1'] _ _ "2\u00a0\r\n0 1 0 1 R\n".toList (by simp) (by simp) hrows
    convert h using 1 <;> decide
  have hlines : SameLines t t' := .tail (.tail (.single hreturns) hnewline) hspace
  have hwords : SameWords t t'' := .tail hlines.sameWords (.inr hgap)
  exact ⟨hlines, (layout_is_free t t').1 hlines, hwords, (layout_is_free t t'').2 hwords⟩

end TapeMachines
