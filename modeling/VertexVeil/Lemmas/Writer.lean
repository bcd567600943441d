import VertexVeil.Lemmas.Storage
import VertexVeil.Writer

/-!
# What the writer does

A directory that can be written is a `Shelf`: nothing is in the places of the bundle's files but those files. On a shelf every
call of the writer does one thing to the texts by their names, and what the directory lists is known.
-/

namespace VertexVeil

open Codec Files Files.FileSystem

/-- Texts by their names, as the files of a directory. -/
def textFiles (texts : Text → Option Text) : OsStr → Option Contents
  | .utf8 name => (texts name).map .utf8
  | .other _ => none

theorem textFiles_some {texts : Text → Option Text} {name text : Text} (h : texts name = some text) :
    textFiles texts (.utf8 name) = some (.utf8 text) := by
  rw [textFiles, h]
  rfl

theorem textFiles_update (texts : Text → Option Text) (name : Text) (text : Option Text) :
    Function.update (textFiles texts) (.utf8 name) (text.map .utf8) = textFiles (Function.update texts name text) := by
  funext n
  cases n with
  | other bytes => exact Function.update_of_ne (by simp) ..
  | utf8 n =>
    by_cases hn : n = name
    · rw [hn, Function.update_self, textFiles, Function.update_self]
    · rw [Function.update_of_ne (by simpa using hn), textFiles, textFiles, Function.update_of_ne hn]

theorem update_same {texts : Text → Option Text} {name : Text} {text : Option Text} (h : texts name = text) :
    Function.update texts name text = texts := by
  rw [← h, Function.update_eq_self]

namespace OnDisk

variable {ε ε' α α' : Type} {disk disk' : Disk}

theorem bind_eq_ok {x : OnDisk ε α} {f : α → OnDisk ε α'} {b : α'} :
    (x >>= f) disk = .ok b disk' ↔ ∃ a disk₁, x disk = .ok a disk₁ ∧ f a disk₁ = .ok b disk' := by
  change EStateM.bind x f disk = _ ↔ _
  unfold EStateM.bind
  cases hx : x disk with
  | ok a disk₁ => exact ⟨fun h => ⟨a, disk₁, rfl, h⟩, fun ⟨a', disk₂, he, h⟩ => by cases he; exact h⟩
  | error e disk₁ => exact iff_of_false (by simp) (fun ⟨_, _, he, _⟩ => by cases he)

end OnDisk

/-- A look at the disk that finds the same on all disks. -/
theorem OnDisk.look_does {ε α : Type} {base : Disk} {q : Place OsStr} {f : Disk → Except ε α} {files : OsStr → Option Contents}
    {a : α} (hf : ∀ disk, Filled base disk q files → f disk = .ok a) : Does base q (OnDisk.look f) files a files :=
  fun disk h => ⟨disk, by simp only [OnDisk.look, hf disk h], h⟩

/-- A path leads to a directory where nothing has the name of a file that the writers own. -/
structure Shelf (base : Disk) (dir : PathBuf) (q : Place OsStr) : Prop where
  resolve : base.resolve dir.route = .ok q
  directory : base.node q = some .directory
  free : ∀ name ∈ ownedFiles, base.node (q ++ [.utf8 name]) = none

/-- The names in a directory that are text. -/
def namesIn (disk : Disk) (q : Place OsStr) : Finset Text :=
  ((disk.children q).image fun p => p.getLast?.bind OsStr.toStr).eraseNone

theorem mem_namesIn {disk : Disk} {q : Place OsStr} {name : Text} :
    name ∈ namesIn disk q ↔ disk.node (q ++ [.utf8 name]) ≠ none := by
  rw [namesIn, Finset.mem_eraseNone, Finset.mem_image]
  constructor
  · rintro ⟨p, hp, hname⟩
    obtain ⟨hmem, hne, rfl⟩ := Finset.mem_filter.mp hp
    obtain ⟨x, hx, hstr⟩ := Option.bind_eq_some_iff.mp hname
    obtain rfl : x = .utf8 name := by
      cases x with
      | utf8 s => exact congrArg OsStr.utf8 (Option.some.inj hstr)
      | other bytes => cases hstr
    rw [List.dropLast_append_getLast? _ hx]
    exact (disk.mem_entries p).mp hmem
  · intro h
    refine ⟨q ++ [.utf8 name], Finset.mem_filter.mpr ⟨(disk.mem_entries _).mpr h, by simp, List.dropLast_concat⟩, ?_⟩
    rw [List.getLast?_concat]
    rfl

theorem listBundleFiles_eq {disk : Disk} {dir : PathBuf} {q : Place OsStr} (hq : disk.resolve dir.route = .ok q)
    (hd : disk.node q = some .directory) : listBundleFiles disk dir = (namesIn disk q).sort := by
  unfold listBundleFiles readDir
  rw [hq]
  simp only [isDirectory_iff.mpr hd, if_true]
  rfl

/-! ## The manifest -/

/-- Names that are added to a list unless they are in it. -/
theorem foldl_push (names files : List Text) (h : files.Nodup) :
    (names.foldl (fun files name => if name ∈ files then files else files ++ [name]) files).Nodup ∧
      ∀ n, n ∈ names.foldl (fun files name => if name ∈ files then files else files ++ [name]) files ↔ n ∈ files ∨ n ∈ names := by
  induction names generalizing files with
  | nil => exact ⟨h, fun n => by simp⟩
  | cons name names ih =>
    rw [List.foldl_cons]
    split
    · rename_i hm
      refine ⟨(ih files h).1, fun n => ?_⟩
      rw [(ih files h).2, List.mem_cons]
      have himp : n = name → n ∈ files := fun he => he ▸ hm
      tauto
    · rename_i hm
      have hnd : (files ++ [name]).Nodup := by
        rw [List.nodup_append_comm, List.singleton_append, List.nodup_cons]
        exact ⟨hm, h⟩
      refine ⟨(ih _ hnd).1, fun n => ?_⟩
      rw [(ih _ hnd).2, List.mem_append, List.mem_singleton, List.mem_cons, or_assoc]

theorem insertionSort_eq_sort {files : List Text} (h : files.Nodup) : files.insertionSort (· ≤ ·) = files.toFinset.sort := by
  have hperm := List.perm_insertionSort (· ≤ ·) files
  have hnd : (files.insertionSort (· ≤ ·)).Nodup := hperm.nodup_iff.mpr h
  have hset : (files.insertionSort (· ≤ ·)).toFinset = files.toFinset := by
    ext n
    rw [List.mem_toFinset, List.mem_toFinset, hperm.mem_iff]
  rw [← hset]
  exact ((List.toFinset_sort _ hnd).mpr (List.pairwise_insertionSort _ _)).symm

namespace Shelf

variable {base disk : Disk} {dir : PathBuf} {q : Place OsStr} {texts : Text → Option Text} {name text : Text}

theorem reach (hs : Shelf base dir q) : base.reach dir.route = .ok q := reach_of_resolve hs.resolve

/-- The path of the directory leads there whatever texts are in it. -/
theorem resolve_filled (hs : Shelf base dir q) {files : OsStr → Option Contents} (h : Filled base disk q files) :
    disk.resolve dir.route = .ok q := by
  have hroute := hs.resolve
  unfold FileSystem.resolve at hroute ⊢
  split at hroute
  · cases hroute
  · rename_i hne
    rw [if_neg hne]
    exact h.reach hroute

theorem isDir_filled (hs : Shelf base dir q) {files : OsStr → Option Contents} (h : Filled base disk q files) :
    disk.isDir dir.route = true := by
  unfold FileSystem.isDir
  rw [hs.resolve_filled h]
  exact isDirectory_iff.mpr h.node_dir

theorem pathExists_dir (hs : Shelf base dir q) {files : OsStr → Option Contents} (h : Filled base disk q files) :
    disk.pathExists dir.route = true := by
  unfold FileSystem.pathExists
  rw [hs.resolve_filled h]

theorem pathExists (hs : Shelf base dir q) {files : OsStr → Option Contents} (h : Filled base disk q files)
    (hn : name ∈ ownedFiles) : disk.pathExists (dir.join (.utf8 name)).route = (files (.utf8 name)).isSome :=
  h.pathExists hs.reach (hs.free name hn)

theorem read (hs : Shelf base dir q) (h : Filled base disk q (textFiles texts)) (ht : texts name = some text) :
    readToString disk (dir.join (.utf8 name)) = .ok text := by
  have hread := h.read hs.reach (textFiles_some ht)
  rw [← PathBuf.join_route] at hread
  simp only [readToString, hread]

/-- The names of the bundle's files are those of all texts and the two that come last. -/
theorem bundleFiles_eq (hs : Shelf base dir q) (h : Filled base disk q (textFiles texts)) {names : Finset Text}
    (hnames : ∀ n, n ∈ names ↔ (n ∈ namesIn base q ∨ (texts n).isSome) ∨ n = runStatusFile ∨ n = bundleReadmeFile) :
    bundleFiles disk dir = names.sort := by
  have hlist := listBundleFiles_eq (hs.resolve_filled h) h.node_dir
  have hmem : ∀ n, n ∈ namesIn disk q ↔ n ∈ namesIn base q ∨ (texts n).isSome := by
    intro n
    rw [mem_namesIn, mem_namesIn]
    cases ht : texts n with
    | none =>
      rw [h.frame]
      · simp
      · rintro x c hc he
        obtain rfl := (List.cons.inj (List.append_cancel_left he)).1
        rw [textFiles, ht] at hc
        cases hc
    | some text => simp [h.file _ _ (textFiles_some ht)]
  obtain ⟨hnd, hpush⟩ := foldl_push [runStatusFile, bundleReadmeFile] (namesIn disk q).sort (Finset.sort_nodup _ _)
  unfold bundleFiles
  rw [hlist, insertionSort_eq_sort hnd]
  congr 1
  ext n
  rw [List.mem_toFinset, hpush, Finset.mem_sort, hmem, hnames]
  simp

/-! ## Writing -/

theorem writeFile_does (hs : Shelf base dir q) (hn : name ∈ ownedFiles) (text : Text) :
    Does base q (writeFile (dir.join (.utf8 name)) text) (textFiles texts) ()
      (textFiles (Function.update texts name (some text))) := by
  intro disk h
  obtain ⟨disk', hw, h'⟩ := h.write hs.reach (hs.free name hn) (.utf8 text)
  refine ⟨disk', ?_, textFiles_update texts name (some text) ▸ h'⟩
  rw [← PathBuf.join_route] at hw
  simp only [writeFile, hw]

theorem writeText_does (hs : Shelf base dir q) (hn : name ∈ ownedFiles) (text : Text) :
    Does base q ((ArtifactWriter.mk dir).writeText name text) (textFiles texts) (dir.join (.utf8 name))
      (textFiles (Function.update texts name (some text))) :=
  (hs.writeFile_does hn text).adaptExcept.bind .pure

/-- A text that is there already. -/
theorem writeText_does_same (hs : Shelf base dir q) (hn : name ∈ ownedFiles) (ht : texts name = some text) :
    Does base q ((ArtifactWriter.mk dir).writeText name text) (textFiles texts) (dir.join (.utf8 name)) (textFiles texts) := by
  have hwrite : Does base q ((ArtifactWriter.mk dir).writeText name text) (textFiles texts) (dir.join (.utf8 name))
      (textFiles (Function.update texts name (some text))) := hs.writeText_does hn text
  rwa [update_same ht] at hwrite

variable {files : OsStr → Option Contents}

/-- Opening a writer on the directory does nothing. -/
theorem new_does (hs : Shelf base dir q) (hvalid : validateOutputPath dir = .ok ()) :
    Does base q (ArtifactWriter.new dir) files { dir } files := by
  intro disk h
  refine ⟨disk, ?_, h⟩
  simp only [ArtifactWriter.new, hvalid, hs.pathExists_dir h, if_true, hs.isDir_filled h]

end Shelf

/-- A directory where the names of the writers' files are free or those of files is a shelf that was filled. -/
theorem exists_shelf {disk : Disk} {dir : PathBuf} {q : Place OsStr} (hq : disk.resolve dir.route = .ok q)
    (hd : disk.node q = some .directory) (hfile : ∀ name ∈ ownedFiles, disk.node (q ++ [.utf8 name]) = none ∨
      ∃ c, disk.node (q ++ [.utf8 name]) = some (.file c)) :
    ∃ base files, Shelf base dir q ∧ Filled base disk q files ∧ (∀ n, n ∉ ownedFiles.map OsStr.utf8 → files n = none) ∧
      ∀ name, name ∈ namesIn base q ↔ name ∈ namesIn disk q ∧ name ∉ ownedFiles := by
  have hmem : ∀ n : OsStr, n ∈ (ownedFiles.map OsStr.utf8).toFinset ↔ ∃ name ∈ ownedFiles, OsStr.utf8 name = n := by
    intro n
    rw [List.mem_toFinset, List.mem_map]
  obtain ⟨h, files, hfilled, hnone, hfree⟩ := filled_without (ownedFiles.map OsStr.utf8).toFinset hd fun n hn => by
    obtain ⟨name, hname, rfl⟩ := (hmem n).mp hn
    exact hfile name hname
  have hown : ∀ name ∈ ownedFiles, (disk.without q _ h).node (q ++ [.utf8 name]) = none :=
    fun name hname => hfree _ ((hmem _).mpr ⟨name, hname, rfl⟩)
  have hother : ∀ n, n ∉ ownedFiles.map OsStr.utf8 → files n = none := fun n hn => hnone n (by rwa [List.mem_toFinset])
  refine ⟨_, files, ⟨?_, hfilled.directory, hown⟩, hfilled, hother, fun name => ?_⟩
  · unfold FileSystem.resolve at hq ⊢
    split at hq
    · cases hq
    · rename_i hne
      rw [if_neg hne]
      exact hfilled.reach_base hq
  · rw [mem_namesIn, mem_namesIn]
    by_cases hn : name ∈ ownedFiles
    · exact iff_of_false (fun h => h (hown name hn)) (fun h => h.2 hn)
    · rw [← hfilled.frame, and_iff_left hn]
      rintro x c hc he
      obtain rfl := (List.cons.inj (List.append_cancel_left he)).1
      rw [hother _ (by simpa using hn)] at hc
      cases hc

end VertexVeil
