import Mathlib.Data.List.Nodup
import TapeMachines.Files.Disk
import TapeMachines.Proofs.Files.Names
/-!
# Entries of a folder

A folder of a disk is a finite map from names to nodes (`nodeIn?`), whose names are its children. Following the joined
path of a name leads to the node under that name (`follow_join`), unless the system does not take the path at all
(`Path.Accepted`): then it leads nowhere, on every disk.
-/

namespace TapeMachines.Files

/-- The system takes the path: it holds no null byte and is not too long. -/
def Path.Accepted (p : Path) : Prop := 0 ∉ p ∧ p.length ≤ Disk.maxPathLength

namespace Disk

/-- What stands in a folder under a name. -/
def nodeIn? (d : Disk) (names : List Name) (name : Name) : Option Node := d.node? (names ++ [name])

/-- Every entry is there once, under names that entries can have. -/
structure WellFormed (d : Disk) : Prop where
  distinct : (d.entries.map Prod.fst).Nodup
  isEntryName : ∀ e ∈ d.entries, ∀ name ∈ e.1, IsEntryName name

variable {d : Disk} {names : List Name} {name : Name} {node : Node}

/-! ## Children -/

/-- The name under which a path stands in a folder. -/
def nameIn? (names path : List Name) : Option Name := if path.dropLast = names then path.getLast? else none

theorem nameIn?_eq_some_iff {path : List Name} : nameIn? names path = some name ↔ path = names ++ [name] := by
  unfold nameIn?
  constructor
  · intro h
    split at h
    · next hdrop =>
      obtain ⟨above, rfl⟩ := List.getLast?_eq_some_iff.1 h
      rw [List.dropLast_concat] at hdrop
      rw [hdrop]
    · cases h
  · rintro rfl
    rw [List.dropLast_concat, if_pos rfl, List.getLast?_concat]

theorem children_eq (d : Disk) (names : List Name) :
    d.children names = (d.entries.map Prod.fst).filterMap (nameIn? names) := by
  rw [List.filterMap_map]
  rfl

theorem nodeIn?_eq : d.nodeIn? names name = (d.entries.find? fun e => e.1 = names ++ [name]).map Prod.snd := by
  rw [nodeIn?, node?, if_neg (by simp)]

theorem mem_children_iff : name ∈ d.children names ↔ (d.nodeIn? names name).isSome = true := by
  rw [children_eq, nodeIn?_eq, List.mem_filterMap, Option.isSome_map, List.find?_isSome]
  simp only [nameIn?_eq_some_iff, exists_eq_right, List.mem_map, decide_eq_true_eq]

theorem WellFormed.nodup_children (h : d.WellFormed) (names : List Name) : (d.children names).Nodup := by
  rw [children_eq]
  refine h.distinct.filterMap ?_
  intro path path' name hpath hpath'
  rw [Option.mem_def, nameIn?_eq_some_iff] at hpath hpath'
  rw [hpath, hpath']

theorem WellFormed.isEntryName_of_nodeIn? (h : d.WellFormed) (hentry : d.nodeIn? names name = some node) :
    IsEntryName name := by
  rw [nodeIn?_eq, Option.map_eq_some_iff] at hentry
  obtain ⟨e, he, -⟩ := hentry
  have hpath : e.1 = names ++ [name] := by simpa using List.find?_some he
  exact h.isEntryName e (List.mem_of_find?_eq_some he) name (by simp [hpath])

/-! ## Disks that additions make -/

theorem wellFormed_empty : empty.WellFormed := ⟨List.nodup_nil, nofun⟩

theorem WellFormed.put (h : d.WellFormed) (hnames : ∀ name ∈ names, IsEntryName name) (node : Node) :
    (d.put names node).WellFormed := by
  constructor
  · have hkept : ((d.entries.filter fun e => e.1 ≠ names).map Prod.fst).Nodup :=
      h.distinct.sublist (List.filter_sublist.map Prod.fst)
    rw [Disk.put, List.map_append, List.nodup_append]
    refine ⟨hkept, List.nodup_singleton names, ?_⟩
    intro path hpath path' hpath'
    obtain ⟨e, he, rfl⟩ := List.mem_map.1 hpath
    have hne : e.1 ≠ names := by simpa using (List.mem_filter.1 he).2
    rwa [List.eq_of_mem_singleton hpath']
  · intro e he
    rcases List.mem_append.1 he with he | he
    · exact h.isEntryName e (List.mem_filter.1 he).1
    · rw [List.eq_of_mem_singleton he]
      exact hnames

theorem WellFormed.add (h : d.WellFormed) (hnames : ∀ name ∈ names, IsEntryName name) (node : Node) :
    (d.add names node).WellFormed := by
  have hparents : (d.addParents names).WellFormed := by
    unfold addParents
    induction List.range names.length generalizing d with
    | nil => exact h
    | cons k ks ih =>
      rw [List.foldl_cons]
      split
      · exact ih h
      · exact ih (h.put (fun name hname => hnames name (List.mem_of_mem_take hname)) .folder)
  exact hparents.put hnames node

/-- The disk that holds some files and folders, and the folders on the way to them. -/
def ofFiles (files : List (List Name × Node)) : Disk := files.foldl (fun d file => d.add file.1 file.2) empty

theorem wellFormed_ofFiles {files : List (List Name × Node)} (h : ∀ file ∈ files, ∀ name ∈ file.1, IsEntryName name) :
    (ofFiles files).WellFormed := by
  unfold ofFiles
  have hempty := wellFormed_empty
  generalize empty = d at hempty ⊢
  induction files generalizing d with
  | nil => exact hempty
  | cons file files ih =>
    have hfile := hempty.add (h file List.mem_cons_self) file.2
    exact ih (fun other hother => h other (List.mem_cons_of_mem _ hother)) _ hfile

/-! ## Following a path -/

theorem follow_of_accepted {p : Path} (hp : p.Accepted) (hne : p ≠ []) :
    d.follow p = p.components.foldlM (fun place name => d.enter name place) (start p) := by
  obtain ⟨hnull, hlength⟩ := hp
  rw [follow, if_neg hnull, if_neg hne, if_neg (by omega)]

theorem follow_of_too_long (d : Disk) {p : Path} (hnull : 0 ∉ p) (hlength : maxPathLength < p.length) :
    d.follow p = .error .tooLong := by
  have hne : p ≠ [] := by
    rintro rfl
    exact absurd hlength (by decide)
  rw [follow, if_neg hnull, if_neg hne, if_pos hlength]

/-- A path that the system does not take is refused for the same reason on every disk. -/
theorem follow_of_refused {p : Path} (hp : ¬ p.Accepted) :
    ∃ cause, (cause = .nullInPath ∨ cause = .tooLong) ∧ ∀ d : Disk, d.follow p = .error cause := by
  by_cases hnull : 0 ∈ p
  · exact ⟨.nullInPath, .inl rfl, fun d => if_pos hnull⟩
  · have hlength : maxPathLength < p.length := by
      by_contra h
      exact hp ⟨hnull, by omega⟩
    exact ⟨.tooLong, .inr rfl, fun d => d.follow_of_too_long hnull hlength⟩

theorem ne_nil_of_follow {p : Path} {place : Place} (h : d.follow p = .ok place) : p ≠ [] := by
  rintro rfl
  cases h

theorem accepted_of_follow {p : Path} {place : Place} (h : d.follow p = .ok place) : p.Accepted := by
  by_contra hp
  obtain ⟨cause, -, hrefused⟩ := follow_of_refused hp
  rw [hrefused d] at h
  cases h

theorem start_join {folder : Path} (hfolder : folder ≠ []) (name : Name) : start (folder.join name) = start folder := by
  obtain ⟨b, rest, rfl⟩ := List.exists_cons_of_ne_nil hfolder
  unfold start Path.join
  split <;> rfl

/-- No step is taken for an empty component. -/
theorem eq_of_enter_nil {place place' : Place} (h : d.enter [] place = .ok place') : place = place' := by
  cases place with
  | outside =>
    cases h
    rfl
  | inside names node =>
    cases node with
    | file content => cases h
    | folder =>
      cases h
      rfl

theorem enter_of_isEntryName (hname : IsEntryName name) :
    d.enter name (.inside names .folder) =
      match d.nodeIn? names name with
      | some node => .ok (.inside (names ++ [name]) node)
      | none => .error (missing name) := by
  rw [enter, if_neg (not_or.2 ⟨hname.ne_nil, hname.ne_dot⟩), if_neg hname.ne_dots]
  rfl

/-- The names of a path are followed one after the other. -/
theorem foldlM_enter_concat {place place' : Place} {above : List Name} (name : Name)
    (h : above.foldlM (fun place name => d.enter name place) place = .ok place') :
    (above ++ [name]).foldlM (fun place name => d.enter name place) place = d.enter name place' := by
  rw [List.foldlM_append, h]
  exact bind_pure (d.enter name place')

/-- The joined path of a name leads to what stands in the folder under it. -/
theorem follow_join {folder : Path} (h : d.follow folder = .ok (.inside names .folder)) (hname : IsEntryName name)
    (hjoin : (folder.join name).Accepted) :
    d.follow (folder.join name) =
      match d.nodeIn? names name with
      | some node => .ok (.inside (names ++ [name]) node)
      | none => .error (missing name) := by
  have hne := ne_nil_of_follow h
  have hjoinNe : folder.join name ≠ [] := by
    unfold Path.join
    split <;> simp [hne]
  obtain ⟨above, hcomponents, hfolder⟩ := Path.components_join hne hname.not_slash
  rw [follow_of_accepted (accepted_of_follow h) hne] at h
  have habove : above.foldlM (fun place name => d.enter name place) (start folder) = .ok (.inside names .folder) := by
    rcases hfolder with hfolder | hfolder
    · rwa [hfolder] at h
    · cases hplace : above.foldlM (fun place name => d.enter name place) (start folder) with
      | error cause =>
        rw [hfolder, List.foldlM_append, hplace] at h
        cases h
      | ok place =>
        rw [hfolder, foldlM_enter_concat [] hplace] at h
        rw [eq_of_enter_nil h]
  rw [follow_of_accepted hjoin hjoinNe, hcomponents, start_join hne, foldlM_enter_concat name habove,
    enter_of_isEntryName hname]

/-- A slash behind the path of a folder leads nowhere else. -/
theorem follow_concat_slash {folder : Path} (h : d.follow folder = .ok (.inside names .folder))
    (hp : (folder ++ [slash]).Accepted) : d.follow (folder ++ [slash]) = .ok (.inside names .folder) := by
  have hne := ne_nil_of_follow h
  have hcomponents : (folder ++ [slash]).components = folder.components ++ [[]] := by
    rw [Path.components, List.splitOn_append_cons_self, List.splitOn_nil]
    rfl
  have hstart : start (folder ++ [slash]) = start folder := by
    obtain ⟨b, rest, rfl⟩ := List.exists_cons_of_ne_nil hne
    rfl
  rw [follow_of_accepted (accepted_of_follow h) hne] at h
  rw [follow_of_accepted hp (by simp), hcomponents, hstart, foldlM_enter_concat [] h]
  rfl

theorem follow_slashes {folder : Path} (h : d.follow folder = .ok (.inside names .folder)) {n : Nat}
    (hn : folder.length + n ≤ maxPathLength) :
    d.follow (folder ++ List.replicate n slash) = .ok (.inside names .folder) := by
  induction n with
  | zero => rwa [List.replicate_zero, List.append_nil]
  | succ n ih =>
    rw [List.replicate_succ', ← List.append_assoc]
    refine follow_concat_slash (ih (by omega)) ⟨?_, ?_⟩
    · have hnull : 0 ∉ folder := (accepted_of_follow h).1
      simp [hnull, show (0 : UInt8) ≠ slash by decide]
    · simpa [Nat.add_assoc] using hn

end Disk

end TapeMachines.Files
