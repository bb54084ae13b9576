import Mathlib.Data.List.TakeWhile
import TapeMachines.Files.Path
/-!
# Names of listings

The name of a listing is a stem of at least one byte, a dot, and an extension. The path of a folder's entry ends in the
entry's name (`components_join`), so that the kind a joined path tells is told by the name alone
(`kind?_join_eq_some_iff`).
-/

namespace TapeMachines.Files

/-- A name that an entry of a folder can have. -/
structure IsEntryName (name : Name) : Prop where
  ne_nil : name ≠ []
  not_slash : slash ∉ name
  ne_dot : name ≠ [dot]
  ne_dots : name ≠ [dot, dot]

instance (name : Name) : Decidable (IsEntryName name) :=
  decidable_of_iff (name ≠ [] ∧ slash ∉ name ∧ name ≠ [dot] ∧ name ≠ [dot, dot])
    ⟨fun ⟨h₁, h₂, h₃, h₄⟩ => ⟨h₁, h₂, h₃, h₄⟩, fun ⟨h₁, h₂, h₃, h₄⟩ => ⟨h₁, h₂, h₃, h₄⟩⟩

/-- The name of a listing of kind `k`. -/
def IsListingName (k : Kind) (name : Name) : Prop := ∃ stem, stem ≠ [] ∧ name = stem ++ dot :: ascii k.extension

namespace Path

/-! ## Extensions -/

theorem extension?_append {stem e : Name} (hstem : stem ≠ []) (he : dot ∉ e) :
    extension? (stem ++ dot :: e) = some e := by
  have hstop : ∀ b ∈ e.reverse, (decide (b ≠ dot)) = true := by
    intro b hb
    rw [decide_eq_true_eq]
    rintro rfl
    exact he (List.mem_reverse.1 hb)
  have hreverse : (stem ++ dot :: e).reverse = e.reverse ++ dot :: stem.reverse := by simp
  obtain ⟨b, rest, hrest⟩ := List.exists_cons_of_ne_nil (List.reverse_ne_nil_iff.2 hstem)
  rw [extension?, hreverse, List.dropWhile_append_of_pos hstop, List.takeWhile_append_of_pos hstop, hrest]
  simp

/-- The extension is what stands behind the last dot, and something must stand before that dot. -/
theorem extension?_eq_some_iff {name e : Name} :
    extension? name = some e ↔ ∃ stem, stem ≠ [] ∧ dot ∉ e ∧ name = stem ++ dot :: e := by
  constructor
  · intro h
    have hsplit := List.takeWhile_append_dropWhile (p := fun b => decide (b ≠ dot)) (l := name.reverse)
    have hhead := List.head?_dropWhile_not (fun b => decide (b ≠ dot)) name.reverse
    unfold extension? at h
    split at h
    · next first second rest hdrop =>
      cases h
      rw [hdrop] at hsplit hhead
      have hfirst : first = dot := by simpa using hhead
      subst hfirst
      refine ⟨(second :: rest).reverse, by simp, ?_, ?_⟩
      · intro hdot
        simpa using List.mem_takeWhile_imp (List.mem_reverse.1 hdot)
      · have hname := congrArg List.reverse hsplit
        rw [List.reverse_append, List.reverse_cons, List.reverse_reverse, List.append_assoc] at hname
        exact hname.symm
    · cases h
  · rintro ⟨stem, hstem, he, rfl⟩
    exact extension?_append hstem he

/-! ## Joined paths -/

/-- A joined path has the name for its last component, whether or not the folder's path ends in a slash. -/
theorem components_join {folder : Path} (hfolder : folder ≠ []) {name : Name} (hname : slash ∉ name) :
    ∃ above, (join folder name).components = above ++ [name] ∧
      (folder.components = above ∨ folder.components = above ++ [[]]) := by
  have hlast : name.splitOn slash = [name] := List.splitOn_eq_singleton hname
  unfold join components
  by_cases hslash : folder.getLast? = some slash
  · obtain ⟨above, rfl⟩ := List.getLast?_eq_some_iff.1 hslash
    refine ⟨above.splitOn slash, ?_, .inr ?_⟩
    · rw [if_pos (.inr hslash), List.append_assoc, List.singleton_append, List.splitOn_append_cons_self, hlast]
    · rw [List.splitOn_append_cons_self, List.splitOn_nil]
  · refine ⟨folder.splitOn slash, ?_, .inl rfl⟩
    rw [if_neg (not_or.2 ⟨hfolder, hslash⟩), List.splitOn_append_cons_self, hlast]

theorem mem_join {folder : Path} {name : Name} {b : UInt8} (h : b ∈ join folder name) :
    b ∈ folder ∨ b = slash ∨ b ∈ name := by
  unfold join at h
  split at h
  · rcases List.mem_append.1 h with h | h
    · exact .inl h
    · exact .inr (.inr h)
  · rwa [List.mem_append, List.mem_cons] at h

theorem length_le_join (folder : Path) (name : Name) : folder.length + name.length ≤ (join folder name).length := by
  unfold join
  split
  · rw [List.length_append]
  · rw [List.length_append, List.length_cons]
    omega

theorem fileName?_join {folder : Path} (hfolder : folder ≠ []) {name : Name} (hname : IsEntryName name) :
    (join folder name).fileName? = some name := by
  obtain ⟨above, hjoin, -⟩ := components_join hfolder hname.not_slash
  have hkept : ([name].filter fun c => c ≠ [] ∧ c ≠ [dot]) = [name] := by simp [hname.ne_nil, hname.ne_dot]
  rw [fileName?, hjoin, List.filter_append, hkept, List.getLast?_concat]
  exact if_neg hname.ne_dots

theorem kind?_join_eq_some_iff {folder : Path} (hfolder : folder ≠ []) {name : Name} (hname : IsEntryName name)
    {k : Kind} : (join folder name).kind? = some k ↔ IsListingName k name := by
  have hpost : dot ∉ ascii Kind.post.extension := by decide
  have hturing : dot ∉ ascii Kind.turing.extension := by decide
  have hdistinct : ascii Kind.turing.extension ≠ ascii Kind.post.extension := by decide
  rw [kind?, fileName?_join hfolder hname, Option.bind_some]
  constructor
  · intro h
    cases he : extension? name with
    | none =>
      rw [he] at h
      cases h
    | some e =>
      obtain ⟨stem, hstem, -, rfl⟩ := extension?_eq_some_iff.1 he
      rw [he] at h
      dsimp only at h
      split at h
      · next hpost =>
        cases h
        exact ⟨stem, hstem, by rw [hpost]⟩
      · split at h
        · next hturing =>
          cases h
          exact ⟨stem, hstem, by rw [hturing]⟩
        · cases h
  · rintro ⟨stem, hstem, rfl⟩
    cases k with
    | post =>
      rw [extension?_append hstem hpost]
      exact if_pos rfl
    | turing =>
      rw [extension?_append hstem hturing]
      dsimp only
      rw [if_neg hdistinct, if_pos rfl]

end Path

end TapeMachines.Files
