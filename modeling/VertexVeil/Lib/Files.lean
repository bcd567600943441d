import Mathlib.Data.Finset.Image

/-!
# File systems with symbolic links

A file system is a finite tree of directories, files and symbolic links. A route is a path as it is written; walking it goes from
place to place, through links, which may lead anywhere and are followed a limited number of times. `mkdir`, `rename`, `remove`
and `createDirAll` do to the tree what the system calls and the library function of these names do.
-/

namespace Files

variable {ν β : Type}

/-- A step of a path: stay, go up, or go down to an entry. -/
inductive Step (ν : Type) where
  | here
  | up
  | down (name : ν)
  deriving DecidableEq

/-- A path as it is written: steps from the root or from the working directory. -/
structure Route (ν : Type) where
  absolute : Bool
  steps : List (Step ν)
  deriving DecidableEq

/-- Where an entry is: the names from the root down to it. -/
abbrev Place (ν : Type) : Type := List ν

/-- What an entry is. -/
inductive Node (ν β : Type) where
  | directory
  | file (contents : β)
  | link (route : Route ν)
  deriving DecidableEq

/-- Errors of the system calls. -/
inductive Error where
  | notFound
  | alreadyExists
  | notADirectory
  | isADirectory
  | directoryNotEmpty
  | filesystemLoop
  | invalidInput
  deriving DecidableEq

/-- A file system: the entries of a finite tree, with a working directory unless it was deleted, and the number of links a walk
may follow. -/
structure FileSystem (ν β : Type) where
  node : Place ν → Option (Node ν β)
  entries : Finset (Place ν)
  cwd : Option (Place ν)
  maxLinks : Nat
  root : node [] = some .directory
  parents : ∀ p name, node (p ++ [name]) ≠ none → node p = some .directory
  mem_entries : ∀ p, p ∈ entries ↔ node p ≠ none

namespace FileSystem

def isDirectory (fs : FileSystem ν β) (p : Place ν) : Bool :=
  match fs.node p with
  | some .directory => true
  | _ => false

/-! ## Walking a path -/

/-- Take steps from a place, with a way to go on at a link. -/
def walkWith (fs : FileSystem ν β) (follow : Place ν → List (Step ν) → Except Error (Place ν)) :
    Place ν → List (Step ν) → Except Error (Place ν)
  | p, [] => .ok p
  | p, step :: rest =>
    if fs.isDirectory p then
      match step with
      | .here => walkWith fs follow p rest
      | .up => walkWith fs follow p.dropLast rest
      | .down name =>
        match fs.node (p ++ [name]) with
        | none => .error .notFound
        | some (.link route) => follow (if route.absolute then [] else p) (route.steps ++ rest)
        | some _ => walkWith fs follow (p ++ [name]) rest
    else .error .notADirectory

/-- Take steps from a place and follow a number of links at most. -/
def walk (fs : FileSystem ν β) : Nat → Place ν → List (Step ν) → Except Error (Place ν)
  | 0 => fs.walkWith fun _ _ => .error .filesystemLoop
  | links + 1 => fs.walkWith (fs.walk links)

/-- Where a path starts. -/
def start (fs : FileSystem ν β) (r : Route ν) : Except Error (Place ν) :=
  if r.absolute then .ok []
  else
    match fs.cwd with
    | some p => .ok p
    | none => .error .notFound

/-- Where a path leads. -/
def reach (fs : FileSystem ν β) (r : Route ν) : Except Error (Place ν) :=
  match fs.start r with
  | .error e => .error e
  | .ok p => fs.walk fs.maxLinks p r.steps

/-- Where a path leads, the empty one nowhere. -/
def resolve (fs : FileSystem ν β) (r : Route ν) : Except Error (Place ν) :=
  if r.absolute = false ∧ r.steps = [] then .error .notFound else fs.reach r

/-- Whether a path leads anywhere. -/
def pathExists (fs : FileSystem ν β) (r : Route ν) : Bool :=
  match fs.resolve r with
  | .ok _ => true
  | .error _ => false

/-- Whether a path leads to a directory. -/
def isDir (fs : FileSystem ν β) (r : Route ν) : Bool :=
  match fs.resolve r with
  | .ok p => fs.isDirectory p
  | .error _ => false

/-! ## The entry a path names -/

/-- A place in a directory, whether there is an entry or not. -/
structure Location (fs : FileSystem ν β) where
  dir : Place ν
  name : ν
  directory : fs.node dir = some .directory

/-- The place of the entry. -/
def Location.entry {fs : FileSystem ν β} (l : Location fs) : Place ν := l.dir ++ [l.name]

theorem Location.not_prefix_dir {fs : FileSystem ν β} (l : Location fs) : ¬ l.entry <+: l.dir := by
  intro h
  have := h.length_le
  rw [entry, List.length_append, List.length_singleton] at this
  omega

/-- The entry that a path names with its last step, which is not followed. -/
def locate (fs : FileSystem ν β) (r : Route ν) : Except Error (Location fs) :=
  match r.steps.getLast? with
  | some (.down name) =>
    match fs.reach { r with steps := r.steps.dropLast } with
    | .error e => .error e
    | .ok p =>
      match h : fs.node p with
      | some .directory => .ok { dir := p, name, directory := h }
      | _ => .error .notADirectory
  | _ => .error .invalidInput

/-! ## Changing the tree -/

/-- A tree with nothing in it, where its root is the working directory. -/
def bare (maxLinks : Nat) : FileSystem ν β where
  node
    | [] => some .directory
    | _ :: _ => none
  entries := {[]}
  cwd := some []
  maxLinks := maxLinks
  root := rfl
  parents p name h := by
    cases p with
    | nil => rfl
    | cons a p => exact absurd rfl h
  mem_entries p := by
    cases p with
    | nil => simp
    | cons a p => simp

section

variable [DecidableEq ν]

/-- A new entry. -/
def insert (fs : FileSystem ν β) (l : Location fs) (x : Node ν β) (free : fs.node l.entry = none) : FileSystem ν β where
  node p := if p = l.entry then some x else fs.node p
  entries := Insert.insert l.entry fs.entries
  cwd := fs.cwd
  maxLinks := fs.maxLinks
  root := by
    rw [if_neg (by simp [Location.entry])]
    exact fs.root
  parents p name h := by
    have hp : fs.node p = some .directory := by
      by_cases he : p ++ [name] = l.entry
      · rw [(List.append_inj' he rfl).1]
        exact l.directory
      · rw [if_neg he] at h
        exact fs.parents p name h
    rw [if_neg (fun he => by rw [he, free] at hp; cases hp)]
    exact hp
  mem_entries p := by
    rw [Finset.mem_insert, fs.mem_entries]
    split
    · rename_i he
      exact iff_of_true (Or.inl he) (by simp)
    · rename_i he
      exact or_iff_right he

/-- Where a place is after the entry `src` was moved to `dst`. -/
def moved (src dst p : Place ν) : Place ν := if src <+: p then dst ++ p.drop src.length else p

theorem moved_append (src dst t : Place ν) : moved src dst (src ++ t) = dst ++ t := by
  rw [moved, if_pos (List.prefix_append _ _), List.drop_left]

theorem moved_of_not {src p : Place ν} (h : ¬ src <+: p) (dst : Place ν) : moved src dst p = p := if_neg h

/-- The node of a place after the entry `src` was moved to `dst`, over whatever was there. -/
def nodeMoved (fs : FileSystem ν β) (src dst p : Place ν) : Option (Node ν β) :=
  if dst <+: p then fs.node (src ++ p.drop dst.length) else if src <+: p then none else fs.node p

theorem nodeMoved_dst (fs : FileSystem ν β) (src dst t : Place ν) : fs.nodeMoved src dst (dst ++ t) = fs.node (src ++ t) := by
  rw [nodeMoved, if_pos (List.prefix_append _ _), List.drop_left]

theorem nodeMoved_src (fs : FileSystem ν β) {src dst p : Place ν} (hd : ¬ dst <+: p) (hs : src <+: p) :
    fs.nodeMoved src dst p = none := by
  rw [nodeMoved, if_neg hd, if_pos hs]

theorem nodeMoved_other (fs : FileSystem ν β) {src dst p : Place ν} (hd : ¬ dst <+: p) (hs : ¬ src <+: p) :
    fs.nodeMoved src dst p = fs.node p := by
  rw [nodeMoved, if_neg hd, if_neg hs]

theorem nodeMoved_parents (fs : FileSystem ν β) (s d : Location fs) (h : ¬ s.entry <+: d.entry) (p : Place ν) (name : ν)
    (hp : fs.nodeMoved s.entry d.entry (p ++ [name]) ≠ none) : fs.nodeMoved s.entry d.entry p = some .directory := by
  by_cases hd : d.entry <+: p
  · obtain ⟨t, rfl⟩ := hd
    rw [List.append_assoc, nodeMoved_dst, ← List.append_assoc] at hp
    rw [nodeMoved_dst]
    exact fs.parents _ _ hp
  · by_cases hdn : d.entry <+: p ++ [name]
    · -- the moved entry itself, whose directory is where it was
      have he := (List.prefix_concat_iff.mp hdn).resolve_right hd
      obtain rfl : d.dir = p := (List.append_inj' he rfl).1
      rw [nodeMoved_other _ hd (fun hs => h (hs.trans (List.prefix_append _ _)))]
      exact d.directory
    · by_cases hs : s.entry <+: p ++ [name]
      · exact absurd (nodeMoved_src fs hdn hs) hp
      · rw [nodeMoved_other _ hdn hs] at hp
        rw [nodeMoved_other _ hd (fun hsp => hs (hsp.trans (List.prefix_append _ _)))]
        exact fs.parents _ _ hp

/-- The entries that stay, and those that move. -/
def entriesMoved (fs : FileSystem ν β) (src dst : Place ν) : Finset (Place ν) :=
  (fs.entries.filter fun p => ¬ src <+: p ∧ ¬ dst <+: p) ∪ (fs.entries.filter fun p => src <+: p).image (moved src dst)

theorem mem_entriesMoved (fs : FileSystem ν β) (src dst p : Place ν) :
    p ∈ fs.entriesMoved src dst ↔ fs.nodeMoved src dst p ≠ none := by
  rw [entriesMoved, Finset.mem_union, Finset.mem_filter, Finset.mem_image]
  by_cases hd : dst <+: p
  · obtain ⟨t, rfl⟩ := hd
    rw [nodeMoved_dst, ← fs.mem_entries]
    constructor
    · rintro (⟨-, -, hn⟩ | ⟨q, hq, hm⟩)
      · exact absurd (List.prefix_append _ _) hn
      · obtain ⟨hq, u, rfl⟩ := Finset.mem_filter.mp hq
        rw [moved_append, List.append_cancel_left_eq] at hm
        exact hm ▸ hq
    · intro h
      exact Or.inr ⟨src ++ t, Finset.mem_filter.mpr ⟨h, List.prefix_append _ _⟩, moved_append _ _ _⟩
  · have himage : ¬ ∃ q ∈ fs.entries.filter (fun p => src <+: p), moved src dst q = p := by
      rintro ⟨q, hq, rfl⟩
      obtain ⟨-, u, rfl⟩ := Finset.mem_filter.mp hq
      rw [moved_append] at hd
      exact hd (List.prefix_append _ _)
    rw [or_iff_left himage, fs.mem_entries]
    by_cases hs : src <+: p
    · rw [nodeMoved_src _ hd hs]
      simp [hs]
    · rw [nodeMoved_other _ hd hs]
      simp [hs, hd]

/-- The tree with the entry at one location moved to another, over whatever is there. A working directory moves along. -/
def move (fs : FileSystem ν β) (s d : Location fs) (h : ¬ s.entry <+: d.entry) : FileSystem ν β where
  node := fs.nodeMoved s.entry d.entry
  entries := fs.entriesMoved s.entry d.entry
  cwd := fs.cwd.bind fun p =>
    if s.entry <+: p then some (moved s.entry d.entry p) else if d.entry <+: p then none else some p
  maxLinks := fs.maxLinks
  root := by
    rw [nodeMoved_other _ (by simp [Location.entry]) (by simp [Location.entry])]
    exact fs.root
  parents := fs.nodeMoved_parents s d h
  mem_entries := fs.mem_entriesMoved s.entry d.entry

/-- Remove an entry and everything below it; a working directory there is gone. -/
def remove (fs : FileSystem ν β) (l : Location fs) : FileSystem ν β where
  node p := if l.entry <+: p then none else fs.node p
  entries := fs.entries.filter fun p => ¬ l.entry <+: p
  cwd := fs.cwd.filter fun p => ¬ l.entry <+: p
  maxLinks := fs.maxLinks
  root := by
    rw [if_neg (by simp [Location.entry])]
    exact fs.root
  parents p name h := by
    split at h
    · exact absurd rfl h
    · rename_i hn
      rw [if_neg (fun hp => hn (hp.trans (List.prefix_append _ _)))]
      exact fs.parents p name h
  mem_entries p := by
    rw [Finset.mem_filter, fs.mem_entries]
    split
    · rename_i h
      exact iff_of_false (fun hp => hp.2 h) (fun hp => hp rfl)
    · rename_i h
      exact and_iff_left h

/-! ## The calls -/

/-- The entries of a directory. -/
def children (fs : FileSystem ν β) (p : Place ν) : Finset (Place ν) :=
  fs.entries.filter fun q => q ≠ [] ∧ q.dropLast = p

/-- What `read_dir` lists, in no order. -/
def readDir (fs : FileSystem ν β) (r : Route ν) : Except Error (Finset (Place ν)) :=
  match fs.resolve r with
  | .error e => .error e
  | .ok p => if fs.isDirectory p then .ok (fs.children p) else .error .notADirectory

/-- Create a directory. The last step of a path that is no name leads to something that exists. -/
def mkdir (fs : FileSystem ν β) (r : Route ν) : Except Error (FileSystem ν β) :=
  match r.steps.getLast? with
  | some (.down _) =>
    match fs.locate r with
    | .error e => .error e
    | .ok l => if free : fs.node l.entry = none then .ok (fs.insert l .directory free) else .error .alreadyExists
  | _ =>
    match fs.resolve r with
    | .error e => .error e
    | .ok _ => .error .alreadyExists

/-- Whether a rename may put an entry in the place of another. -/
def replaces (fs : FileSystem ν β) (src dst : Place ν) : Except Error Unit :=
  match fs.isDirectory src, fs.isDirectory dst with
  | true, true => if fs.children dst = ∅ then .ok () else .error .directoryNotEmpty
  | true, false => .error .notADirectory
  | false, true => .error .isADirectory
  | false, false => .ok ()

/-- Rename the entry at a location. -/
def renameEntry (fs : FileSystem ν β) (s d : Location fs) : Except Error (FileSystem ν β) :=
  if fs.node s.entry = none then .error .notFound
  else if s.entry = d.entry then .ok fs
  else if h : s.entry <+: d.entry then .error .invalidInput
  else if fs.node d.entry = none then .ok (fs.move s d h)
  else
    match fs.replaces s.entry d.entry with
    | .error e => .error e
    | .ok () => .ok (fs.move s d h)

/-- Rename an entry. Neither path's last step is followed. -/
def rename (fs : FileSystem ν β) (src dst : Route ν) : Except Error (FileSystem ν β) :=
  match fs.locate src, fs.locate dst with
  | .ok s, .ok d => fs.renameEntry s d
  | .error e, _ => .error e
  | .ok _, .error e => .error e

/-- `createDirAll`, by the steps of the path from the last to the first. -/
def createDirAllRev (fs : FileSystem ν β) (absolute : Bool) : List (Step ν) → Except Error Unit × FileSystem ν β
  | [] => (.ok (), fs)
  | step :: parent =>
    let r : Route ν := { absolute, steps := (step :: parent).reverse }
    match fs.mkdir r with
    | .ok fs => (.ok (), fs)
    | .error .notFound =>
      match createDirAllRev fs absolute parent with
      | (.error e, fs) => (.error e, fs)
      | (.ok (), fs) =>
        match fs.mkdir r with
        | .ok fs => (.ok (), fs)
        | .error e => if fs.isDir r then (.ok (), fs) else (.error e, fs)
    | .error e => if fs.isDir r then (.ok (), fs) else (.error e, fs)

/-- Create a directory and the directories above it that are missing. -/
def createDirAll (fs : FileSystem ν β) (r : Route ν) : Except Error Unit × FileSystem ν β :=
  fs.createDirAllRev r.absolute r.steps.reverse

end

end FileSystem
end Files
