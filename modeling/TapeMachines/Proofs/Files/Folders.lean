import TapeMachines.Files.Loading
import TapeMachines.Proofs.Files.Entries
/-!
# Loading a folder

Each entry of a folder gives one element or none (`Disk.elements`), whatever the other entries are: a file whose name
is that of a listing gives what loading its joined path gives, and nothing comes of an entry with any other name, nor of
a folder that can be told from a file (`elements_file`, `elements_of_not_listing`, `elements_folder`). Loading a folder
puts these together. Main statement: `folder_loads_entry_by_entry`. What lies behind a path that the system does not
take cannot be loaded, nor told from a file (`entries_behind_long_path`).
-/

namespace TapeMachines.Files

/-! ## One file -/

/-- `answer` is what loading the file at `path` gives, a listing of kind `k` that holds `content`. -/
structure LoadedFrom (k : Kind) (path : Path) (content : ByteArray) (answer : Except Fault Program) : Prop where
  /-- The system does not take the path. -/
  refused : ¬ path.Accepted → ∃ cause, (cause = .nullInPath ∨ cause = .tooLong) ∧
    answer = .error (.unreadableFile path cause)
  notText : path.Accepted → String.fromUTF8? content = none → answer = .error (.unreadableFile path .notText)
  tooLong : ∀ listing, path.Accepted → String.fromUTF8? content = some listing → maxListingSize < content.size →
    answer = .error (.listingTooLong content.size)
  parsed : ∀ listing, path.Accepted → String.fromUTF8? content = some listing → content.size ≤ maxListingSize →
    answer = .ok (.ofText k listing)

theorem utf8ByteSize_of_fromUTF8? {content : ByteArray} {listing : String}
    (h : String.fromUTF8? content = some listing) : listing.utf8ByteSize = content.size := by
  unfold String.fromUTF8? at h
  split at h
  · cases h
    rfl
  · cases h

namespace Disk

variable {d : Disk} {folder : Path} {names : List Name} {name : Name} {k : Kind} {content : ByteArray}

theorem loadedFrom_load (hfolder : d.follow folder = .ok (.inside names .folder)) (hname : IsEntryName name)
    (hentry : d.nodeIn? names name = some (.file content)) (hk : IsListingName k name) :
    LoadedFrom k (folder.join name) content (d.load (folder.join name)) := by
  have hkind : (folder.join name).kind? = some k := (Path.kind?_join_eq_some_iff (ne_nil_of_follow hfolder) hname).2 hk
  have hread : (folder.join name).Accepted → d.read (folder.join name) = .ok content := by
    intro hjoin
    rw [read, follow_join hfolder hname hjoin, hentry]
  unfold load programAt
  rw [hkind]
  refine ⟨?refused, ?notText, ?tooLong, ?parsed⟩
  case refused =>
    intro hjoin
    obtain ⟨cause, hcause, hrefused⟩ := follow_of_refused hjoin
    refine ⟨cause, hcause, ?_⟩
    rw [read, hrefused]
    rfl
  case notText =>
    intro hjoin htext
    simp only [hread hjoin, textOf, htext]
  case tooLong =>
    intro listing hjoin htext hsize
    have hbytes := utf8ByteSize_of_fromUTF8? htext
    simp only [hread hjoin, textOf, htext, Program.ofListing, hbytes, if_pos hsize]
  case parsed =>
    intro listing hjoin htext hsize
    have hbytes := utf8ByteSize_of_fromUTF8? htext
    simp only [hread hjoin, textOf, htext, Program.ofListing, hbytes, if_neg (Nat.not_lt.2 hsize)]

/-! ## One entry -/

/-- What an entry gives: one element, or none. -/
def elements (d : Disk) (folder : Path) (name : Name) : List (Except Fault (Path × Program)) :=
  if !d.isFolder (folder.join name) && (folder.join name).kind?.isSome then
    [(d.load (folder.join name)).map (folder.join name, ·)]
  else []

/-- The name decides: no entry with another name than a listing's is loaded, be it a file or a folder. -/
theorem elements_of_not_listing (hfolder : d.follow folder = .ok (.inside names .folder)) (hname : IsEntryName name)
    (hk : ∀ k, ¬ IsListingName k name) : d.elements folder name = [] := by
  have hnone : (folder.join name).kind? = none := by
    rw [Option.eq_none_iff_forall_not_mem]
    intro k h
    exact hk k ((Path.kind?_join_eq_some_iff (ne_nil_of_follow hfolder) hname).1 h)
  simp [elements, hnone]

theorem elements_folder (hfolder : d.follow folder = .ok (.inside names .folder)) (hname : IsEntryName name)
    (hentry : d.nodeIn? names name = some .folder) (hjoin : (folder.join name).Accepted) :
    d.elements folder name = [] := by
  have hisFolder : d.isFolder (folder.join name) = true := by
    rw [isFolder, follow_join hfolder hname hjoin, hentry]
  simp [elements, hisFolder]

theorem isFolder_file (hfolder : d.follow folder = .ok (.inside names .folder)) (hname : IsEntryName name)
    (hentry : d.nodeIn? names name = some (.file content)) : d.isFolder (folder.join name) = false := by
  by_cases hjoin : (folder.join name).Accepted
  · rw [isFolder, follow_join hfolder hname hjoin, hentry]
  · obtain ⟨cause, -, hrefused⟩ := follow_of_refused hjoin
    rw [isFolder, hrefused]

theorem elements_file (hfolder : d.follow folder = .ok (.inside names .folder)) (hname : IsEntryName name)
    (hentry : d.nodeIn? names name = some (.file content)) (hk : IsListingName k name) :
    d.elements folder name = [(d.load (folder.join name)).map (folder.join name, ·)] := by
  have hkind := (Path.kind?_join_eq_some_iff (ne_nil_of_follow hfolder) hname).2 hk
  simp [elements, isFolder_file hfolder hname hentry, hkind]

/-- Behind a path that is too long a folder is not told from a file, and a file is not read. -/
theorem elements_of_too_long (hfolder : d.follow folder = .ok (.inside names .folder)) (hname : IsEntryName name)
    (hk : IsListingName k name) (hnull : 0 ∉ name) (hlength : maxPathLength < folder.length + name.length) :
    d.elements folder name = [.error (.unreadableFile (folder.join name) .tooLong)] := by
  have hnull' : 0 ∉ folder.join name := by
    intro hmem
    rcases Path.mem_join hmem with h | h | h
    · exact (accepted_of_follow hfolder).1 h
    · exact absurd h (by decide)
    · exact hnull h
  have hfollow : d.follow (folder.join name) = .error .tooLong :=
    d.follow_of_too_long hnull' (Nat.lt_of_lt_of_le hlength (Path.length_le_join folder name))
  have hkind := (Path.kind?_join_eq_some_iff (ne_nil_of_follow hfolder) hname).2 hk
  have hload : d.load (folder.join name) = .error (.unreadableFile (folder.join name) .tooLong) := by
    rw [load, programAt, hkind, read, hfollow]
    rfl
  rw [elements, isFolder, hfollow, hkind, hload]
  rfl

/-- An entry gives the same on every disk where the folder holds the same under its name. -/
theorem elements_congr {d' : Disk} (hfolder : d.follow folder = .ok (.inside names .folder))
    (hfolder' : d'.follow folder = .ok (.inside names .folder)) (hname : IsEntryName name)
    (hentry : d'.nodeIn? names name = d.nodeIn? names name) : d'.elements folder name = d.elements folder name := by
  have hfollow : d'.follow (folder.join name) = d.follow (folder.join name) := by
    by_cases hjoin : (folder.join name).Accepted
    · rw [follow_join hfolder hname hjoin, follow_join hfolder' hname hjoin, hentry]
    · obtain ⟨cause, -, hrefused⟩ := follow_of_refused hjoin
      rw [hrefused, hrefused]
  rw [elements, elements, isFolder, isFolder, load, load, read, read, hfollow]

/-! ## All entries -/

theorem loadAll_eq_flatMap (hfolder : d.follow folder = .ok (.inside names .folder)) :
    d.loadAll folder = (d.children names).flatMap (d.elements folder) := by
  have hhas : d.has folder = true := by rw [has, hfolder]
  have hlist : d.list folder = .ok (d.children names) := by rw [list, hfolder]
  rw [loadAll, if_pos hhas, hlist]
  dsimp only
  rw [programPaths]
  induction d.children names with
  | nil => rfl
  | cons name rest ih =>
    rw [List.flatMap_cons, ← ih, elements, List.map_cons, List.filter_cons]
    split <;> rfl

/-! ## Main theorem -/

/-- The elements of a folder are those of its entries, each of which is there once. No entry whose name is not that of
a listing gives any, be it a file or a folder. A file with the name of a listing gives one element: what loading its
joined path gives, with that path where this is a program. A folder with such a name gives none where the system takes
its joined path. So a file that cannot be loaded gives its own fault and no more: where the folder holds the same on two
disks but for one entry, all elements but that entry's are the same. -/
theorem folder_loads_entry_by_entry (d : Disk) (hd : d.WellFormed) (folder : Path) (names : List Name)
    (hfolder : d.follow folder = .ok (.inside names .folder)) :
    ((d.children names).Nodup ∧ (∀ name, name ∈ d.children names ↔ (d.nodeIn? names name).isSome = true) ∧
      d.loadAll folder = (d.children names).flatMap (d.elements folder)) ∧
    (∀ name node, d.nodeIn? names name = some node → (∀ k, ¬ IsListingName k name) → d.elements folder name = []) ∧
    (∀ name k, d.nodeIn? names name = some .folder → IsListingName k name → (folder.join name).Accepted →
      d.elements folder name = []) ∧
    (∀ name content k, d.nodeIn? names name = some (.file content) → IsListingName k name →
      d.elements folder name = [(d.load (folder.join name)).map (folder.join name, ·)] ∧
      LoadedFrom k (folder.join name) content (d.load (folder.join name))) ∧
    ∀ (d' : Disk) (name : Name), d'.follow folder = .ok (.inside names .folder) →
      name ∈ d.children names → d'.children names = d.children names →
      (∀ other, other ≠ name → d'.nodeIn? names other = d.nodeIn? names other) →
      ∃ before after, d.loadAll folder = before ++ d.elements folder name ++ after ∧
        d'.loadAll folder = before ++ d'.elements folder name ++ after := by
  refine ⟨⟨hd.nodup_children names, fun _ => mem_children_iff, loadAll_eq_flatMap hfolder⟩, ?unlisted, ?folders,
    ?files, ?others⟩
  case unlisted =>
    intro name node hentry hk
    exact elements_of_not_listing hfolder (hd.isEntryName_of_nodeIn? hentry) hk
  case folders =>
    intro name _ hentry _ hjoin
    exact elements_folder hfolder (hd.isEntryName_of_nodeIn? hentry) hentry hjoin
  case files =>
    intro name content k hentry hk
    have hname := hd.isEntryName_of_nodeIn? hentry
    exact ⟨elements_file hfolder hname hentry hk, loadedFrom_load hfolder hname hentry hk⟩
  case others =>
    intro d' name hfolder' hname hchildren hothers
    obtain ⟨before, after, hsplit⟩ := List.append_of_mem hname
    have hnodup := hd.nodup_children names
    have hsame : ∀ other ∈ d.children names, other ≠ name → d'.elements folder other = d.elements folder other := by
      intro other hother hne
      obtain ⟨node, hnode⟩ := Option.isSome_iff_exists.1 (mem_children_iff.1 hother)
      exact elements_congr hfolder hfolder' (hd.isEntryName_of_nodeIn? hnode) (hothers other hne)
    rw [hsplit, List.nodup_middle, List.nodup_cons, List.mem_append, not_or] at hnodup
    obtain ⟨⟨hbefore, hafter⟩, -⟩ := hnodup
    rw [hsplit] at hsame
    refine ⟨before.flatMap (d.elements folder), after.flatMap (d.elements folder), ?_, ?_⟩
    · rw [loadAll_eq_flatMap hfolder, hsplit, List.flatMap_append, List.flatMap_cons, List.append_assoc]
    · rw [loadAll_eq_flatMap hfolder', hchildren, hsplit, List.flatMap_append, List.flatMap_cons, List.append_assoc]
      congr 1
      · refine List.flatMap_congr fun other hother => hsame other (List.mem_append_left _ hother) ?_
        rintro rfl
        exact hbefore hother
      · congr 1
        refine List.flatMap_congr fun other hother => hsame other ?_ ?_
        · exact List.mem_append_right _ (List.mem_cons_of_mem _ hother)
        · rintro rfl
          exact hafter hother

/-- Hidden names, names with several dots or bytes that are no text, a folder with the name of a listing and one
without, and a file that is no text. -/
theorem folder_loads_entry_by_entry_mixed :
    let d := ofFiles [([ascii "d", ascii ".post"], .file "!".toUTF8),
      ([ascii "d", 0xFF :: ascii ".x.post"], .file "!".toUTF8), ([ascii "d", ascii "n.tur"], .folder),
      ([ascii "d", ascii "old"], .folder), ([ascii "d", ascii "b.tur"], .file ⟨#[0xFF]⟩)]
    let folder : Path := ascii "./d/"
    d.WellFormed ∧ d.follow folder = .ok (.inside [ascii "d"] .folder) ∧
      d.loadAll folder = [.ok (folder.join (0xFF :: ascii ".x.post"), .ofText .post "!"),
        .error (.unreadableFile (folder.join (ascii "b.tur")) .notText)] := by
  intro d folder
  have hd : d.WellFormed := wellFormed_ofFiles (by decide)
  have hfolder : d.follow folder = .ok (.inside [ascii "d"] .folder) := rfl
  have hother {name : Name} (hname : IsEntryName name) (hkind : (folder.join name).kind? = none) (k : Kind) :
      ¬ IsListingName k name := by
    intro hk
    have hsome := (Path.kind?_join_eq_some_iff (ne_nil_of_follow hfolder) hname).2 hk
    rw [hkind] at hsome
    cases hsome
  obtain ⟨⟨-, -, hall⟩, hunlisted, hfolders, hfiles, -⟩ := folder_loads_entry_by_entry d hd folder [ascii "d"] hfolder
  have hhidden := hunlisted (ascii ".post") _ rfl (hother (by decide) rfl)
  have hold := hunlisted (ascii "old") _ rfl (hother (by decide) rfl)
  obtain ⟨hgood, hloaded⟩ := hfiles (0xFF :: ascii ".x.post") _ .post rfl ⟨0xFF :: ascii ".x", by decide, rfl⟩
  obtain ⟨hbad, hfault⟩ := hfiles (ascii "b.tur") _ .turing rfl ⟨ascii "b", by decide, rfl⟩
  have hfolder' := hfolders (ascii "n.tur") .turing rfl ⟨ascii "n", by decide, rfl⟩ ⟨by decide, by decide⟩
  rw [hloaded.parsed "!" ⟨by decide, by decide⟩ rfl (by decide)] at hgood
  rw [hfault.notText ⟨by decide, by decide⟩ rfl] at hbad
  have hchildren : d.children [ascii "d"] =
      [ascii ".post", 0xFF :: ascii ".x.post", ascii "n.tur", ascii "old", ascii "b.tur"] := rfl
  refine ⟨hd, hfolder, ?_⟩
  simp only [hall, hchildren, List.flatMap_cons, List.flatMap_nil, hhidden, hgood, hfolder', hold, hbad]
  rfl

/-- Behind a path that is too long a listing of a few bytes is not loaded, and a folder is not passed over. -/
theorem entries_behind_long_path :
    let d := ofFiles [([ascii "d", ascii "a.tur"], .file "0 _ 0 _ S".toUTF8), ([ascii "d", ascii "n.tur"], .folder)]
    let folder : Path := ascii "d" ++ List.replicate 4090 slash
    d.WellFormed ∧ d.follow folder = .ok (.inside [ascii "d"] .folder) ∧
    d.children [ascii "d"] = [ascii "a.tur", ascii "n.tur"] ∧
    (d.nodeIn? [ascii "d"] (ascii "a.tur") = some (.file "0 _ 0 _ S".toUTF8) ∧ IsListingName .turing (ascii "a.tur") ∧
      String.fromUTF8? "0 _ 0 _ S".toUTF8 = some "0 _ 0 _ S" ∧ "0 _ 0 _ S".toUTF8.size ≤ maxListingSize) ∧
    d.nodeIn? [ascii "d"] (ascii "n.tur") = some .folder ∧
    d.loadAll folder ≠ [.ok (folder.join (ascii "a.tur"), .ofText .turing "0 _ 0 _ S")] ∧
    d.loadAll folder = [.error (.unreadableFile (folder.join (ascii "a.tur")) .tooLong),
      .error (.unreadableFile (folder.join (ascii "n.tur")) .tooLong)] := by
  intro d folder
  have hd : d.WellFormed := wellFormed_ofFiles (by decide)
  have hshort : d.follow (ascii "d") = .ok (.inside [ascii "d"] .folder) := rfl
  have hfolder : d.follow folder = .ok (.inside [ascii "d"] .folder) := follow_slashes hshort (by decide)
  have hlength : folder.length = 4091 := by
    rw [List.length_append, List.length_replicate]
    rfl
  have hchildren : d.children [ascii "d"] = [ascii "a.tur", ascii "n.tur"] := rfl
  have hfile : d.elements folder (ascii "a.tur") = [.error (.unreadableFile (folder.join (ascii "a.tur")) .tooLong)] :=
    elements_of_too_long hfolder (by decide) (k := .turing) ⟨ascii "a", by decide, rfl⟩ (by decide)
      (by rw [hlength]; decide)
  have hsubfolder :
      d.elements folder (ascii "n.tur") = [.error (.unreadableFile (folder.join (ascii "n.tur")) .tooLong)] :=
    elements_of_too_long hfolder (by decide) (k := .turing) ⟨ascii "n", by decide, rfl⟩ (by decide)
      (by rw [hlength]; decide)
  have hall : d.loadAll folder = [.error (.unreadableFile (folder.join (ascii "a.tur")) .tooLong),
      .error (.unreadableFile (folder.join (ascii "n.tur")) .tooLong)] := by
    simp only [loadAll_eq_flatMap hfolder, hchildren, List.flatMap_cons, List.flatMap_nil, hfile, hsubfolder]
    rfl
  refine ⟨hd, hfolder, hchildren, ⟨rfl, ⟨ascii "a", by decide, rfl⟩, rfl, by decide⟩, rfl, ?_, hall⟩
  rw [hall]
  intro h
  exact absurd (congrArg List.length h) (by simp)

end Disk

end TapeMachines.Files
