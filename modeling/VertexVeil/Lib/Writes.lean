import Mathlib.Logic.Function.Basic
import VertexVeil.Lib.Renames

/-!
# Reading, writing and removing files

`read`, `write` and `unlink` do to the files of a tree what the calls of these names do: a path's last link is followed when a file
is written, and not when an entry is removed. `Filled` is a tree that gained files in one directory and is otherwise the one it
was; it is kept by every write there, and the files say what the paths to that directory read.
-/

namespace Files

variable {ν β : Type}

namespace FileSystem

/-- Read the file a path leads to. -/
def read (fs : FileSystem ν β) (r : Route ν) : Except Error β :=
  match fs.resolve r with
  | .error e => .error e
  | .ok p =>
    match fs.node p with
    | some (.file c) => .ok c
    | _ => .error .isADirectory

/-- Remove an entry that is no directory. The path's last step is not followed. -/
def unlink [DecidableEq ν] (fs : FileSystem ν β) (r : Route ν) : Except Error (FileSystem ν β) :=
  match fs.locate r with
  | .error e => .error e
  | .ok l =>
    match fs.node l.entry with
    | none => .error .notFound
    | some .directory => .error .isADirectory
    | some _ => .ok (fs.remove l)

/-- Take steps to the entry that is written: a file, or a name in a directory that is free. -/
def openWith (fs : FileSystem ν β) (follow : Place ν → List (Step ν) → Except Error (Location fs)) :
    Place ν → List (Step ν) → Except Error (Location fs)
  | _, [] => .error .isADirectory
  | p, step :: rest =>
    match h : fs.node p with
    | some .directory =>
      match step with
      | .here => openWith fs follow p rest
      | .up => openWith fs follow p.dropLast rest
      | .down name =>
        match fs.node (p ++ [name]) with
        | some (.link route) => follow (if route.absolute then [] else p) (route.steps ++ rest)
        | some .directory => openWith fs follow (p ++ [name]) rest
        | some (.file _) => if rest.isEmpty then .ok { dir := p, name, directory := h } else .error .notADirectory
        | none => if rest.isEmpty then .ok { dir := p, name, directory := h } else .error .notFound
    | _ => .error .notADirectory

/-- The entry that is written, when a number of links may be followed. -/
def openFile (fs : FileSystem ν β) : Nat → Place ν → List (Step ν) → Except Error (Location fs)
  | 0 => fs.openWith fun _ _ => .error .filesystemLoop
  | links + 1 => fs.openWith (fs.openFile links)

/-! ## Changing one file -/

section

variable [DecidableEq ν]

/-- The tree with a file at a location that holds no directory. -/
def setFile (fs : FileSystem ν β) (l : Location fs) (c : β) (h : fs.isDirectory l.entry = false) : FileSystem ν β where
  node p := if p = l.entry then some (.file c) else fs.node p
  entries := Insert.insert l.entry fs.entries
  cwd := fs.cwd
  maxLinks := fs.maxLinks
  root := by
    rw [if_neg (by simp [Location.entry])]
    exact fs.root
  parents p name hp := by
    have hdir : fs.node p = some .directory := by
      by_cases he : p ++ [name] = l.entry
      · rw [(List.append_inj' he rfl).1]
        exact l.directory
      · rw [if_neg he] at hp
        exact fs.parents p name hp
    have hne : p ≠ l.entry := by
      rintro rfl
      rw [isDirectory, hdir] at h
      cases h
    rw [if_neg hne]
    exact hdir
  mem_entries p := by
    rw [Finset.mem_insert, fs.mem_entries]
    split
    · rename_i he
      exact iff_of_true (Or.inl he) (by simp)
    · rename_i he
      exact or_iff_right he

/-- Write a file, over the contents of one that is there. -/
def write (fs : FileSystem ν β) (r : Route ν) (c : β) : Except Error (FileSystem ν β) :=
  if r.absolute = false ∧ r.steps = [] then .error .notFound
  else
    match fs.start r with
    | .error e => .error e
    | .ok p =>
      match fs.openFile fs.maxLinks p r.steps with
      | .error e => .error e
      | .ok l => if h : fs.isDirectory l.entry = false then .ok (fs.setFile l c h) else .error .isADirectory

variable {fs fs' : FileSystem ν β}

theorem node_setFile_self (l : Location fs) (c : β) (h : fs.isDirectory l.entry = false) :
    (fs.setFile l c h).node l.entry = some (.file c) := if_pos rfl

theorem node_setFile_of_ne (l : Location fs) (c : β) (h : fs.isDirectory l.entry = false) {p : Place ν} (hp : p ≠ l.entry) :
    (fs.setFile l c h).node p = fs.node p := if_neg hp

omit [DecidableEq ν] in
/-- Trees with the same nodes, working directory and limit are the same. -/
theorem ext_node (hnode : ∀ p, fs.node p = fs'.node p) (hcwd : fs.cwd = fs'.cwd) (hlinks : fs.maxLinks = fs'.maxLinks) :
    fs = fs' := by
  have hentries : fs.entries = fs'.entries := by
    ext p
    rw [fs.mem_entries, fs'.mem_entries, hnode]
  have hnodes : fs.node = fs'.node := funext hnode
  cases fs
  cases fs'
  cases hnodes
  cases hcwd
  cases hlinks
  cases hentries
  rfl

omit [DecidableEq ν] in
/-- A walk to a directory starts at one. -/
theorem Walks.start_directory {n : Nat} {p q : Place ν} {steps : List (Step ν)} (h : Walks fs n p steps q)
    (hd : fs.node q = some .directory) : fs.node p = some .directory := by
  cases h with
  | nil => exact hd
  | here hp _ | up hp _ | down hp _ _ _ | link hp _ _ => exact hp

omit [DecidableEq ν] in
/-- A walk to a directory goes past no file. -/
theorem Walks.without_files {n : Nat} {p q : Place ν} {steps : List (Step ν)} (h : Walks fs n p steps q)
    (hd : fs.node q = some .directory)
    (hfs : ∀ p x, fs.node p = some x → (∀ c, x ≠ .file c) → fs'.node p = some x) : Walks fs' n p steps q := by
  have hdir : ∀ p, fs.node p = some .directory → fs'.node p = some .directory := fun p hp => hfs p _ hp (fun c => by simp)
  induction h with
  | nil => exact .nil
  | here hp h ih => exact .here (hdir _ hp) (ih hd)
  | up hp h ih => exact .up (hdir _ hp) (ih hd)
  | down hp hx hl h ih =>
    have hx' := h.start_directory hd
    exact .down (hdir _ hp) (hdir _ hx') (fun route => by simp) (ih hd)
  | link hp hx h ih => exact .link (hdir _ hp) (hfs _ _ hx (fun c => by simp)) (ih hd)

omit [DecidableEq ν] in
/-- A walk to a directory leads on to a name there that is a file or free. -/
theorem Walks.openFile {n : Nat} {p b : Place ν} {steps : List (Step ν)} {name : ν} (h : Walks fs n p steps b)
    (hd : fs.node b = some .directory) (hx : fs.node (b ++ [name]) = none ∨ ∃ c, fs.node (b ++ [name]) = some (.file c)) :
    fs.openFile n p (steps ++ [.down name]) = .ok { dir := b, name, directory := hd } := by
  have hwith : ∀ n, ∃ follow, fs.openFile n = fs.openWith follow := by
    intro n
    cases n with
    | zero => exact ⟨_, rfl⟩
    | succ n => exact ⟨_, rfl⟩
  induction h with
  | @nil n p =>
    obtain ⟨follow, hn⟩ := hwith n
    rw [hn, List.nil_append]
    unfold openWith
    split
    · rcases hx with hx | ⟨c, hx⟩ <;> simp [hx]
    · rename_i hne
      exact absurd hd hne
  | @here n p q rest hd' h ih =>
    obtain ⟨follow, hn⟩ := hwith n
    specialize ih hd hx
    rw [hn] at ih ⊢
    rw [List.cons_append]
    unfold openWith
    split
    · exact ih
    · rename_i hne
      exact absurd hd' hne
  | @up n p q rest hd' h ih =>
    obtain ⟨follow, hn⟩ := hwith n
    specialize ih hd hx
    rw [hn] at ih ⊢
    rw [List.cons_append]
    unfold openWith
    split
    · exact ih
    · rename_i hne
      exact absurd hd' hne
  | @down n p q name' x rest hd' hx' hl h ih =>
    obtain ⟨follow, hn⟩ := hwith n
    specialize ih hd hx
    rw [hn] at ih ⊢
    rw [List.cons_append]
    unfold openWith
    split
    · cases x with
      | link route => exact absurd rfl (hl route)
      | directory => simp only [hx', ih]
      | file c => cases hx'.symm.trans (h.start_directory hd)
    · rename_i hne
      exact absurd hd' hne
  | @link n p q name' route rest hd' hx' h ih =>
    specialize ih hd hx
    change fs.openWith (fs.openFile n) p (.down name' :: (rest ++ [.down name])) = _
    unfold openWith
    split
    · rw [List.append_assoc] at ih
      simp only [hx', ih]
    · rename_i hne
      exact absurd hd' hne

/-- Writing to a name in the directory a path leads to, where there is a file or nothing. -/
theorem write_eq {r : Route ν} {b : Place ν} {name : ν} {c : β} (hr : fs.reach r = .ok b) (hd : fs.node b = some .directory)
    (hx : fs.node (b ++ [name]) = none ∨ ∃ c, fs.node (b ++ [name]) = some (.file c)) :
    ∃ h, fs.write { r with steps := r.steps ++ [.down name] } c =
      .ok (fs.setFile { dir := b, name, directory := hd } c h) := by
  obtain ⟨p, hp, hw⟩ := reach_eq_ok.mp hr
  have hfile : fs.isDirectory (b ++ [name]) = false := by
    rcases hx with hx | ⟨c, hx⟩ <;> simp [isDirectory, hx]
  refine ⟨hfile, ?_⟩
  unfold write
  rw [if_neg (by simp)]
  have hstart : fs.start { r with steps := r.steps ++ [.down name] } = .ok p := hp
  rw [hstart]
  simp only [hw.openFile hd hx]
  exact dif_pos hfile

end

/-- The working directory is one, if it is anything. -/
def CwdDirectory (fs : FileSystem ν β) : Prop := ∀ w, fs.cwd = some w → fs.node w = some .directory

namespace CwdDirectory

variable {fs fs' : FileSystem ν β}

theorem of_part (h : fs.CwdDirectory) (hpart : fs.Part fs') (hcwd : fs'.cwd = fs.cwd) : fs'.CwdDirectory :=
  fun w hw => hpart w _ (h w (hcwd ▸ hw))

variable [DecidableEq ν]

/-- It moves with the entry it is in. -/
theorem move (h : fs.CwdDirectory) {s d : Location fs} (hp : ¬ s.entry <+: d.entry) : (fs.move s d hp).CwdDirectory := by
  intro w hw
  obtain ⟨c, hc, hw⟩ := Option.bind_eq_some_iff.mp hw
  have hdir := h c hc
  change fs.nodeMoved s.entry d.entry w = _
  split at hw
  · rename_i hs
    obtain ⟨t, rfl⟩ := hs
    obtain rfl := Option.some.inj hw
    rwa [moved_append, nodeMoved_dst]
  · rename_i hs
    split at hw
    · cases hw
    · rename_i hd
      obtain rfl := Option.some.inj hw
      rwa [nodeMoved_other fs hd hs]

theorem remove (h : fs.CwdDirectory) (l : Location fs) : (fs.remove l).CwdDirectory := by
  intro w hw
  obtain ⟨hc, hl⟩ := Option.filter_eq_some_iff.mp hw
  rw [node_remove_of_not l (of_decide_eq_true hl)]
  exact h w hc

end CwdDirectory

/-! ## A part of the tree that stays -/

/-- What was done to a tree left a part of it alone, and the working directory, if it is in the part. -/
structure Keeps (sub fs fs' : FileSystem ν β) : Prop where
  part : sub.Part fs'
  cwd : ∀ c, sub.node c = some .directory → fs.cwd = some c → fs'.cwd = some c
  maxLinks : fs'.maxLinks = fs.maxLinks

namespace Keeps

variable {sub fs fs' fs'' : FileSystem ν β}

theorem refl (h : sub.Part fs) : Keeps sub fs fs := ⟨h, fun _ _ hc => hc, rfl⟩

theorem trans (h : Keeps sub fs fs') (h' : Keeps sub fs' fs'') : Keeps sub fs fs'' :=
  ⟨h'.part, fun c hd hc => h'.cwd c hd (h.cwd c hd hc), h'.maxLinks.trans h.maxLinks⟩

theorem grown (h : sub.Part fs) (hg : Grown fs fs') : Keeps sub fs fs' :=
  ⟨h.trans hg.part, fun _ _ hc => hg.cwd.trans hc, hg.maxLinks⟩

section

variable [DecidableEq ν]

theorem moved (h : sub.Part fs) {s d : Location fs} (hp : ¬ s.entry <+: d.entry) (hs : sub.node s.entry = none)
    (hd : sub.node d.entry = none) : Keeps sub fs (fs.move s d hp) := by
  refine ⟨fun q x hx => ?_, fun c hdir hc => ?_, rfl⟩
  · exact (nodeMoved_other fs (not_prefix_of_none hd hx) (not_prefix_of_none hs hx)).trans (h q x hx)
  · simp only [FileSystem.move, hc, Option.bind_some, if_neg (not_prefix_of_none hs hdir), if_neg (not_prefix_of_none hd hdir)]

theorem removed (h : sub.Part fs) {l : Location fs} (hl : sub.node l.entry = none) : Keeps sub fs (fs.remove l) := by
  refine ⟨fun q x hx => ?_, fun c hdir hc => ?_, rfl⟩
  · rw [node_remove_of_not l (not_prefix_of_none hl hx)]
    exact h q x hx
  · have hkeep := not_prefix_of_none hl hdir
    simp [FileSystem.remove, hc, Option.filter, hkeep]

end

theorem leads {r : Route ν} {p b : Place ν} (h : Keeps sub fs fs') (hl : Leads sub fs r p b) : Leads sub fs' r p b :=
  hl.of_part h.part h.cwd h.maxLinks

end Keeps

/-- A path leads to a file within a part of the tree. -/
structure Holds (sub fs : FileSystem ν β) (r : Route ν) (c : β) : Prop where
  named : ∃ steps name, r.steps = steps ++ [.down name]
  start : ∃ p, fs.start r = .ok p ∧ ∃ q, Walks sub fs.maxLinks p r.steps q ∧ sub.node q = some (.file c)

namespace Holds

variable {sub fs fs' : FileSystem ν β} {r : Route ν} {c : β}

/-- The file is read. -/
theorem read (h : Holds sub fs r c) (hpart : sub.Part fs) : fs.read r = .ok c := by
  obtain ⟨steps, name, hsteps⟩ := h.named
  obtain ⟨p, hp, q, hw, hq⟩ := h.start
  have hreach : fs.resolve r = .ok q := by
    rw [resolve, if_neg (by simp [hsteps])]
    exact reach_eq_ok.mpr ⟨p, hp, hw.mono hpart⟩
  simp only [FileSystem.read, hreach, hpart _ _ hq]

theorem kept (h : Holds sub fs r c) (hk : Keeps sub fs fs') : Holds sub fs' r c := by
  obtain ⟨steps, name, hsteps⟩ := h.named
  obtain ⟨p, hp, q, hw, hq⟩ := h.start
  have hdir : sub.node p = some .directory := by
    rw [hsteps] at hw
    generalize fs.maxLinks = n at hw
    cases steps with
    | nil => cases hw with
      | down hd _ _ _ | link hd _ _ => exact hd
    | cons step rest => cases hw with
      | here hd _ | up hd _ | down hd _ _ _ | link hd _ _ => exact hd
  refine ⟨⟨steps, name, hsteps⟩, p, ?_, q, hk.maxLinks ▸ hw, hq⟩
  unfold FileSystem.start at hp ⊢
  split
  · rename_i habs
    rwa [if_pos habs] at hp
  · rename_i habs
    rw [if_neg habs] at hp
    cases hc : fs.cwd with
    | none => simp [hc] at hp
    | some w =>
      rw [hc] at hp
      obtain rfl := Except.ok.inj hp
      rw [hk.cwd _ hdir hc]

end Holds

/-! ## A directory that is filled -/

/-- A tree that has files in one directory and is otherwise another one, which had nothing in their places. -/
structure Filled (base fs : FileSystem ν β) (q : Place ν) (files : ν → Option β) : Prop where
  directory : base.node q = some .directory
  free : ∀ name c, files name = some c → base.node (q ++ [name]) = none
  file : ∀ name c, files name = some c → fs.node (q ++ [name]) = some (.file c)
  frame : ∀ p, (∀ name c, files name = some c → p ≠ q ++ [name]) → fs.node p = base.node p
  cwd : fs.cwd = base.cwd
  maxLinks : fs.maxLinks = base.maxLinks

namespace Filled

variable {base fs fs' : FileSystem ν β} {q : Place ν} {files : ν → Option β} {dir : Route ν} {name : ν} {c : β}

/-- A tree with nothing more. -/
theorem start (hd : base.node q = some .directory) : Filled base base q fun _ => none :=
  ⟨hd, fun _ _ h => (by cases h), fun _ _ h => (by cases h), fun _ _ => rfl, rfl, rfl⟩

theorem part (h : Filled base fs q files) : base.Part fs := by
  intro p x hx
  rw [h.frame p ?_]
  · exact hx
  · rintro name c hc rfl
    rw [h.free name c hc] at hx
    cases hx

theorem keeps {sub : FileSystem ν β} (h : Filled base fs q files) (hsub : sub.Part base) : Keeps sub base fs :=
  ⟨hsub.trans h.part, fun _ _ hc => h.cwd.trans hc, h.maxLinks⟩

/-- The files determine the tree. -/
theorem unique (h : Filled base fs q files) (h' : Filled base fs' q files) : fs = fs' := by
  refine ext_node (fun p => ?_) (h.cwd.trans h'.cwd.symm) (h.maxLinks.trans h'.maxLinks.symm)
  by_cases hp : ∃ name c, files name = some c ∧ p = q ++ [name]
  · obtain ⟨name, c, hc, rfl⟩ := hp
    rw [h.file name c hc, h'.file name c hc]
  · have hne : ∀ name c, files name = some c → p ≠ q ++ [name] := fun name c hc he => hp ⟨name, c, hc, he⟩
    rw [h.frame p hne, h'.frame p hne]

/-- What is at a name that was free. -/
theorem node_name (h : Filled base fs q files) (hfree : base.node (q ++ [name]) = none) :
    fs.node (q ++ [name]) = (files name).map .file := by
  cases hf : files name with
  | some c => exact h.file name c hf
  | none =>
    rw [h.frame _ ?_]
    · exact hfree
    · intro n c hc he
      obtain rfl := (List.cons.inj (List.append_cancel_left he)).1
      rw [hf] at hc
      cases hc

theorem start_eq (h : Filled base fs q files) (r : Route ν) : fs.start r = base.start r := by
  unfold FileSystem.start
  rw [h.cwd]

/-- The path of the directory leads there. -/
theorem reach (h : Filled base fs q files) (hr : base.reach dir = .ok q) : fs.reach dir = .ok q := by
  obtain ⟨p, hp, hw⟩ := reach_eq_ok.mp hr
  exact reach_eq_ok.mpr ⟨p, (h.start_eq dir).trans hp, h.maxLinks ▸ hw.mono h.part⟩

theorem node_dir (h : Filled base fs q files) : fs.node q = some .directory := h.part _ _ h.directory

/-- The path of the directory led there without the files. -/
theorem reach_base (h : Filled base fs q files) (hr : fs.reach dir = .ok q) : base.reach dir = .ok q := by
  obtain ⟨p, hp, hw⟩ := reach_eq_ok.mp hr
  refine reach_eq_ok.mpr ⟨p, (h.start_eq dir).symm.trans hp, h.maxLinks ▸ hw.without_files h.node_dir fun p x hx hfile => ?_⟩
  rw [← h.frame p ?_]
  · exact hx
  · rintro name c hc rfl
    exact hfile c (Option.some.inj (hx.symm.trans (h.file name c hc)))

/-- Where the path of a name in the directory leads. -/
theorem resolve_name (h : Filled base fs q files) (hr : base.reach dir = .ok q) (hfree : base.node (q ++ [name]) = none) :
    (∀ c, files name = some c → fs.resolve { dir with steps := dir.steps ++ [.down name] } = .ok (q ++ [name])) ∧
      (files name = none → ∀ p, fs.resolve { dir with steps := dir.steps ++ [.down name] } ≠ .ok p) := by
  have hreach := h.reach hr
  obtain ⟨p, hp, hw⟩ := reach_eq_ok.mp hreach
  have hnode := h.node_name hfree
  have hresolve : fs.resolve { dir with steps := dir.steps ++ [.down name] } =
      fs.reach { dir with steps := dir.steps ++ [.down name] } := by rw [resolve, if_neg (by simp)]
  rw [hresolve]
  refine ⟨fun c hc => ?_, fun hnone p' hp' => ?_⟩
  · rw [hc] at hnode
    exact reach_eq_ok.mpr ⟨p, hp, hw.snoc h.node_dir hnode (fun route => by simp)⟩
  · rw [hnone] at hnode
    obtain ⟨p₁, hp₁, hw'⟩ := reach_eq_ok.mp hp'
    obtain rfl : p₁ = p := Except.ok.inj (hp₁.symm.trans hp)
    obtain ⟨b, x, hb, -, hx, -⟩ := hw'.last
    obtain rfl := hb.unique hw
    rw [hnode] at hx
    cases hx

theorem pathExists (h : Filled base fs q files) (hr : base.reach dir = .ok q) (hfree : base.node (q ++ [name]) = none) :
    fs.pathExists { dir with steps := dir.steps ++ [.down name] } = (files name).isSome := by
  obtain ⟨hsome, hnone⟩ := h.resolve_name hr hfree
  unfold FileSystem.pathExists
  cases hf : files name with
  | some c => rw [hsome c hf]; rfl
  | none =>
    split
    · rename_i p hp
      exact absurd hp (hnone hf p)
    · rfl

theorem read (h : Filled base fs q files) (hr : base.reach dir = .ok q) (hc : files name = some c) :
    fs.read { dir with steps := dir.steps ++ [.down name] } = .ok c := by
  obtain ⟨hsome, -⟩ := h.resolve_name hr (h.free name c hc)
  simp only [FileSystem.read, hsome c hc, h.file name c hc]

variable [DecidableEq ν]

/-- A file that is written is one more, or one with other contents. -/
theorem write (h : Filled base fs q files) (hr : base.reach dir = .ok q) (hfree : base.node (q ++ [name]) = none) (c : β) :
    ∃ fs', fs.write { dir with steps := dir.steps ++ [.down name] } c = .ok fs' ∧
      Filled base fs' q (Function.update files name (some c)) := by
  have hx : fs.node (q ++ [name]) = none ∨ ∃ c, fs.node (q ++ [name]) = some (.file c) := by
    rw [h.node_name hfree]
    cases files name with
    | none => exact Or.inl rfl
    | some c => exact Or.inr ⟨c, rfl⟩
  obtain ⟨hfile, hw⟩ := write_eq (c := c) (h.reach hr) h.node_dir hx
  refine ⟨_, hw, h.directory, fun n d hd => ?_, fun n d hd => ?_, fun p hp => ?_, h.cwd, h.maxLinks⟩
  · by_cases hn : n = name
    · exact hn ▸ hfree
    · rw [Function.update_of_ne hn] at hd
      exact h.free n d hd
  · by_cases hn : n = name
    · subst hn
      rw [Function.update_self] at hd
      obtain rfl := Option.some.inj hd
      exact node_setFile_self (⟨q, n, h.node_dir⟩ : Location fs) c hfile
    · rw [Function.update_of_ne hn] at hd
      refine (node_setFile_of_ne (⟨q, name, h.node_dir⟩ : Location fs) c hfile fun he => hn ?_).trans
        (h.file n d hd)
      exact (List.cons.inj (List.append_cancel_left he)).1
  · have hne : p ≠ q ++ [name] := hp name c (Function.update_self ..)
    refine (node_setFile_of_ne (⟨q, name, h.node_dir⟩ : Location fs) c hfile hne).trans
      (h.frame p fun n d hd he => ?_)
    by_cases hn : n = name
    · exact hne (hn ▸ he)
    · exact hp n d (by rw [Function.update_of_ne hn]; exact hd) he

/-- A file that is removed is one less. The working directory is not in its place. -/
theorem unlink (h : Filled base fs q files) (hr : base.reach dir = .ok q) (hc : files name = some c)
    (hcwd : ∀ w, base.cwd = some w → base.node w ≠ none) :
    ∃ fs', fs.unlink { dir with steps := dir.steps ++ [.down name] } = .ok fs' ∧
      Filled base fs' q (Function.update files name none) := by
  obtain ⟨p, hp, hw⟩ := reach_eq_ok.mp (h.reach hr)
  let l : Location fs := { dir := q, name, directory := h.node_dir }
  have hl : fs.locate { dir with steps := dir.steps ++ [.down name] } = .ok l :=
    locate_eq_ok.mpr ⟨dir.steps, rfl, reach_eq_ok.mpr ⟨p, hp, hw⟩⟩
  have hfile : fs.node l.entry = some (.file c) := h.file name c hc
  have hfree : base.node l.entry = none := h.free name c hc
  refine ⟨fs.remove l, by simp only [FileSystem.unlink, hl, hfile], h.directory, fun n d hd => ?_, fun n d hd => ?_,
    fun p hp => ?_, ?_, h.maxLinks⟩
  · by_cases hn : n = name
    · rw [hn, Function.update_self] at hd
      cases hd
    · rw [Function.update_of_ne hn] at hd
      exact h.free n d hd
  · by_cases hn : n = name
    · rw [hn, Function.update_self] at hd
      cases hd
    · rw [Function.update_of_ne hn] at hd
      rw [node_remove_of_not l]
      · exact h.file n d hd
      · intro hpre
        exact hn (List.cons.inj (List.append_cancel_left (hpre.eq_of_length (by simp [l, Location.entry])))).1.symm
  · by_cases hpl : l.entry <+: p
    · -- nothing is below a file, and nothing was in its place
      rw [show (fs.remove l).node p = none from if_pos hpl]
      cases hb : base.node p with
      | none => rfl
      | some x => exact absurd hpl (not_prefix_of_none hfree hb)
    · rw [node_remove_of_not l hpl]
      refine h.frame p fun n d hd he => ?_
      by_cases hn : n = name
      · subst hn he
        exact hpl (List.prefix_refl _)
      · exact hp n d (by rw [Function.update_of_ne hn]; exact hd) he
  · change fs.cwd.filter _ = base.cwd
    rw [h.cwd]
    cases hb : base.cwd with
    | none => rfl
    | some w =>
      obtain ⟨x, hx⟩ := Option.ne_none_iff_exists'.mp (hcwd w hb)
      simp [Option.filter, not_prefix_of_none hfree hx]

end Filled

/-! ## A directory without its files -/

section

variable [DecidableEq ν]

/-- The tree without some names of a directory that are no directories. -/
def without (fs : FileSystem ν β) (q : Place ν) (names : Finset ν) (h : ∀ name ∈ names, fs.isDirectory (q ++ [name]) = false) :
    FileSystem ν β where
  node p := if p ∈ names.image (q ++ [·]) then none else fs.node p
  entries := fs.entries.filter (· ∉ names.image (q ++ [·]))
  cwd := fs.cwd
  maxLinks := fs.maxLinks
  root := by
    rw [if_neg (by simp)]
    exact fs.root
  parents p name hp := by
    split at hp
    · exact absurd rfl hp
    · have hd := fs.parents p name hp
      rw [if_neg]
      · exact hd
      · intro hm
        obtain ⟨n, hn, rfl⟩ := Finset.mem_image.mp hm
        exact absurd ((h n hn).symm.trans (isDirectory_iff.mpr hd)) (by simp)
  mem_entries p := by
    rw [Finset.mem_filter, fs.mem_entries]
    split
    · rename_i hm
      exact iff_of_false (fun hp => hp.2 hm) (fun hp => hp rfl)
    · rename_i hm
      exact and_iff_left hm

variable {fs : FileSystem ν β} {q : Place ν}

/-- A directory whose names are free or those of files is one that was filled. -/
theorem filled_without (names : Finset ν) (hd : fs.node q = some .directory)
    (hfile : ∀ name ∈ names, fs.node (q ++ [name]) = none ∨ ∃ c, fs.node (q ++ [name]) = some (.file c)) :
    ∃ h files, Filled (fs.without q names h) fs q files ∧ (∀ name, name ∉ names → files name = none) ∧
      ∀ name ∈ names, (fs.without q names h).node (q ++ [name]) = none := by
  have hdir : ∀ name ∈ names, fs.isDirectory (q ++ [name]) = false := by
    intro name hn
    rcases hfile name hn with hx | ⟨c, hx⟩ <;> simp [isDirectory, hx]
  have hfree : ∀ name ∈ names, (fs.without q names hdir).node (q ++ [name]) = none :=
    fun name hn => if_pos (Finset.mem_image_of_mem _ hn)
  have hmem : ∀ name, q ++ [name] ∈ names.image (q ++ [·]) → name ∈ names := by
    intro name hm
    obtain ⟨n, hn, he⟩ := Finset.mem_image.mp hm
    exact (List.cons.inj (List.append_cancel_left he)).1 ▸ hn
  let files : ν → Option β := fun name =>
    if name ∈ names then (match fs.node (q ++ [name]) with | some (.file c) => some c | _ => none) else none
  have hfiles : ∀ name c, files name = some c → name ∈ names ∧ fs.node (q ++ [name]) = some (.file c) := by
    intro name c hc
    simp only [files] at hc
    split at hc
    · rename_i hn
      split at hc
      · rename_i d hx
        exact ⟨hn, hx.trans (congrArg (some ∘ Node.file) (Option.some.inj hc))⟩
      · cases hc
    · cases hc
  refine ⟨hdir, files, ⟨?_, fun name c hc => hfree name (hfiles name c hc).1, fun name c hc => (hfiles name c hc).2, ?_, rfl, rfl⟩,
    fun name hn => if_neg hn, hfree⟩
  · have hq : q ∉ names.image (q ++ [·]) := by simp
    exact (if_neg hq).trans hd
  · intro p hp
    by_cases hm : p ∈ names.image (q ++ [·])
    · obtain ⟨n, hn, rfl⟩ := Finset.mem_image.mp hm
      rw [hfree n hn]
      rcases hfile n hn with hx | ⟨c, hx⟩
      · exact hx
      · exact absurd rfl (hp n c (by simp [files, hn, hx]))
    · exact (if_neg hm).symm

end

/-! ## Programs on a directory -/

section

variable {ε ε' α α' : Type}

/-- A program takes every tree with some files in the directory `q`, and otherwise `base`'s, to one with other files there. -/
def Does (base : FileSystem ν β) (q : Place ν) (x : EStateM ε (FileSystem ν β) α) (files : ν → Option β) (a : α)
    (files' : ν → Option β) : Prop :=
  ∀ fs, Filled base fs q files → ∃ fs', x fs = .ok a fs' ∧ Filled base fs' q files'

namespace Does

variable {base : FileSystem ν β} {q : Place ν} {files files' files'' : ν → Option β} {a : α} {b : α'}
  {x : EStateM ε (FileSystem ν β) α} {f : α → EStateM ε (FileSystem ν β) α'}

theorem pure : Does base q (Pure.pure a : EStateM ε (FileSystem ν β) α) files a files := fun fs h => ⟨fs, rfl, h⟩

theorem bind (hx : Does base q x files a files') (hf : Does base q (f a) files' b files'') :
    Does base q (x >>= f) files b files'' := by
  intro fs h
  obtain ⟨fs₁, hx₁, h₁⟩ := hx fs h
  obtain ⟨fs₂, hf₂, h₂⟩ := hf fs₁ h₁
  refine ⟨fs₂, ?_, h₂⟩
  change EStateM.bind x f fs = _
  simp only [EStateM.bind, hx₁, hf₂]

/-- A program that looks at the tree does what it does for all it may see. -/
theorem get_bind {f : FileSystem ν β → EStateM ε (FileSystem ν β) α'}
    (hf : ∀ fs, Filled base fs q files → Does base q (f fs) files b files') :
    Does base q (MonadState.get >>= f) files b files' :=
  fun fs h => hf fs h fs h

theorem adaptExcept {e : ε → ε'} (hx : Does base q x files a files') : Does base q (x.adaptExcept e) files a files' := by
  intro fs h
  obtain ⟨fs', hx', h'⟩ := hx fs h
  exact ⟨fs', by simp only [EStateM.adaptExcept, hx'], h'⟩

/-- A program that leaves the files as they are leaves the tree as it is. -/
theorem stays (hx : Does base q x files a files) {fs : FileSystem ν β} (h : Filled base fs q files) : x fs = .ok a fs := by
  obtain ⟨fs', hx', h'⟩ := hx fs h
  rw [hx', h'.unique h]

end Does

end

end FileSystem
end Files
