import VertexVeil.Run

/-!
# Local runs into one directory

An operator runs sessions into a directory, verifies the bundles that this leaves and deletes some of them. The register says where
each bundle is and what its run reported. It goes by what the calls return, not by the disk: where the old bundle was moved to
when a run says so, and that the bundle before is gone when it does not.
-/

namespace VertexVeil

open Codec Files

instance : DecidableEq PathBuf := fun path path' =>
  decidable_of_iff (path.route = path'.route) ⟨fun h => by cases path; cases path'; cases h; rfl, fun h => h ▸ rfl⟩

/-- The directory of each bundle and the report of its run, the latest first. -/
abbrev Register : Type := List (PathBuf × VerifierReport)

/-- Take a bundle off the register. -/
def Register.drop (register : Register) (path : PathBuf) : Register := register.filter fun entry => entry.1 ≠ path

/-- Enter a run that returned a result, with where the bundle before it is now. -/
def Register.enter (register : Register) (artifacts : PathBuf) (result : DemoResult) : Register :=
  (artifacts, result.report) ::
    match result.rotatedPrev with
    | some target => register.map fun entry => if entry.1 = artifacts then (target, entry.2) else entry
    | none => register.drop artifacts

/-- A disk and the register of the bundles on it. -/
structure Workplace where
  disk : Disk
  register : Register

namespace Workplace

/-- `verify`, whatever it finds. -/
def verify (Γ : Crypto) (F : Formats) (x : Workplace) (path : PathBuf) : Workplace :=
  match Run.verify Γ F path x.disk with
  | .error _ disk | .ok _ disk => { x with disk }

/-- Delete a directory, and with it the bundle. -/
def delete (x : Workplace) (path : PathBuf) : Workplace :=
  match x.disk.locate path.route with
  | .error _ => x
  | .ok l => { disk := x.disk.remove l, register := x.register.drop path }

end Workplace

end VertexVeil
