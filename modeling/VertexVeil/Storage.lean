import VertexVeil.Lib.Walks
import VertexVeil.Artifacts
import VertexVeil.PrivateIntents

/-!
# The directory of a bundle

The writer of a run's files works in a directory of its own. `openVersioned` moves a directory that has something in it to the
first sibling `<dir>.prev-<version>` that does not exist, and creates it again. What a call did to the disk stays done when it
fails later.
-/

namespace VertexVeil

open Codec Files

/-- The name of a file: text, or bytes that are none. -/
inductive OsStr where
  | utf8 (s : Text)
  | other (bytes : List UInt8)
  deriving DecidableEq

namespace OsStr

def toStr : OsStr → Option Text
  | utf8 s => some s
  | other _ => none

/-- Whether a name shows as blank. What replaces the bytes that are no text does not. -/
def isBlank : OsStr → Bool
  | utf8 s => (trim s).isEmpty
  | other _ => false

end OsStr

/-- The component `.` stands first in a relative path or nowhere. -/
def Dotless (r : Route OsStr) : Prop := Step.here ∉ if r.absolute then r.steps else r.steps.tail

theorem Dotless.dropLast {r : Route OsStr} (h : Dotless r) : Dotless { r with steps := r.steps.dropLast } := by
  intro hm
  refine h ?_
  dsimp only at hm
  split at hm
  · rename_i habs
    rw [if_pos habs]
    exact List.mem_of_mem_dropLast hm
  · rename_i habs
    rw [if_neg habs]
    rw [List.tail_dropLast] at hm
    exact List.mem_of_mem_dropLast hm

theorem Dotless.concat {r : Route OsStr} (h : Dotless r) (name : OsStr) :
    Dotless { r with steps := r.steps ++ [.down name] } := by
  intro hm
  dsimp only at hm
  split at hm
  · rename_i habs
    refine h ?_
    rw [if_pos habs]
    exact (List.mem_append.mp hm).resolve_right (by simp)
  · rename_i habs
    cases hs : r.steps with
    | nil => simp [hs] at hm
    | cons step rest =>
      refine h ?_
      rw [hs, List.cons_append, List.tail_cons] at hm
      rw [if_neg habs, hs]
      exact (List.mem_append.mp hm).resolve_right (by simp)

/-- A path, by its components. -/
structure PathBuf where
  route : Route OsStr
  dotless : Dotless route

namespace PathBuf

/-- The path without its last component. -/
def parent (path : PathBuf) : Option PathBuf :=
  if path.route.steps = [] then none
  else some { route := { path.route with steps := path.route.steps.dropLast }, dotless := path.dotless.dropLast }

/-- The last component, where it is a name. -/
def fileName (path : PathBuf) : Option OsStr :=
  match path.route.steps.getLast? with
  | some (.down name) => some name
  | _ => none

/-- The path with one more name. -/
def join (path : PathBuf) (name : OsStr) : PathBuf where
  route := { path.route with steps := path.route.steps ++ [.down name] }
  dotless := path.dotless.concat name

end PathBuf

/-- The text of an error of the system. -/
def osError : Files.Error → String
  | .notFound => "No such file or directory (os error 2)"
  | .alreadyExists => "File exists (os error 17)"
  | .notADirectory => "Not a directory (os error 20)"
  | .isADirectory => "Is a directory (os error 21)"
  | .directoryNotEmpty => "Directory not empty (os error 39)"
  | .filesystemLoop => "Too many levels of symbolic links (os error 40)"
  | .invalidInput => "Invalid argument (os error 22)"

def ioError (e : Files.Error) : Fault ArtifactError := .error (.io (osError e))

def validateComponents : List (Step OsStr) → Except ArtifactError Unit
  | [] => .ok ()
  | .up :: _ => .error (.invalidOutputPath "path must not contain '..' segments")
  | .down name :: rest =>
    if name.isBlank then .error (.invalidOutputPath "path contains empty or whitespace-only segment")
    else validateComponents rest
  | .here :: rest => validateComponents rest

/-- Refuse the empty path, a `..` in a path and a blank name. -/
def validateOutputPath (path : PathBuf) : Except ArtifactError Unit :=
  if path.route.absolute = false ∧ path.route.steps = [] then .error (.invalidOutputPath "empty path")
  else validateComponents path.route.steps

/-- The writer of the files of a run. -/
structure ArtifactWriter where
  dir : PathBuf

namespace ArtifactWriter

variable {β : Type}

/-- The name of a sibling: `{stem}.prev-{version}`. -/
def siblingName (stem : Text) (version : Nat) : OsStr := .utf8 (stem ++ ".prev-".toList ++ Nat.toDigits 10 version)

/-- The first version from one on that is not taken; nothing where the counter, which has `left` values left, overflows. -/
def findVersion (taken : Nat → Bool) : Nat → Nat → Option Nat
  | 0, _ => none
  | left + 1, version => if taken version then findVersion taken left (version + 1) else some version

/-- How many versions a `u64` counts from 1 on. -/
def versions : Nat := 2 ^ 64 - 1

/-- Move a directory that has something in it to a sibling and create it again. -/
def rotate (fs : FileSystem OsStr β) (dir : PathBuf) : Except (Fault ArtifactError) PathBuf × FileSystem OsStr β :=
  match dir.parent with
  | none => (.error (.error (.invalidOutputPath "artifact dir has no parent for rotation")), fs)
  | some parent =>
    match dir.fileName.bind OsStr.toStr with
    | none => (.error (.error (.invalidOutputPath "artifact dir has non-utf8 name")), fs)
    | some stem =>
      match findVersion (fun version => fs.pathExists (parent.join (siblingName stem version)).route) versions 1 with
      | none => (.error (.panic "attempt to add with overflow"), fs)
      | some version =>
        let target := parent.join (siblingName stem version)
        match fs.rename dir.route target.route with
        | .error e => (.error (ioError e), fs)
        | .ok fs =>
          match fs.createDirAll dir.route with
          | (.error e, fs) => (.error (ioError e), fs)
          | (.ok (), fs) => (.ok target, fs)

/-- Open a writer on a directory, a bundle that is there moved away first. -/
def openVersioned (fs : FileSystem OsStr β) (dir : PathBuf) :
    Except (Fault ArtifactError) (ArtifactWriter × Option PathBuf) × FileSystem OsStr β :=
  match validateOutputPath dir with
  | .error e => (.error (.error e), fs)
  | .ok () =>
    if fs.pathExists dir.route then
      if fs.isDir dir.route then
        match fs.readDir dir.route with
        | .error e => (.error (ioError e), fs)
        | .ok entries =>
          if entries = ∅ then (.ok ({ dir }, none), fs)
          else
            match rotate fs dir with
            | (.error e, fs) => (.error e, fs)
            | (.ok target, fs) => (.ok ({ dir }, some target), fs)
      else (.error (.error (.invalidOutputPath "artifact path exists and is not a directory")), fs)
    else
      match fs.createDirAll dir.route with
      | (.error e, fs) => (.error (ioError e), fs)
      | (.ok (), fs) => (.ok ({ dir }, none), fs)

end ArtifactWriter

end VertexVeil
