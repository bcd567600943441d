import VertexVeil.Loading
import VertexVeil.Runtime
import VertexVeil.Verifier

/-!
# Local runs

`demo` runs a session in process and writes its bundle: the log, copies of the topology and of the scenario, the verifier's report,
the receipt, the status and a README. `verify` checks the log of a bundle again and renews the report and the status. Everything
that can fail before the disk is touched is in `prepare`.
-/

namespace VertexVeil

open Codec Files

/-- Errors of `demo` and `verify`. -/
inductive RunError where
  | topology (e : LoadError)
  | scenario (e : LoadError)
  | privateIntent (e : PrivateLoadError)
  | io (e : DiskError)
  | runtime (e : RuntimeError)

/-- What a local run returns. -/
structure DemoResult where
  report : VerifierReport
  finalized : Bool
  abortReason : Option String
  rotatedPrev : Option PathBuf

namespace Run

/-- A call whose error is one of the disk. -/
def io {α : Type} (x : OnDisk DiskError α) : OnDisk (Fault RunError) α := x.mapErr fun e => .error (.io e)

/-- `render_bundle_readme` -/
def renderBundleReadme (status : RunStatus) : Text :=
  "# Vertex Veil Run Bundle\n\n".toList ++
  "This directory contains the public coordination record for one Vertex Veil run.\n".toList ++
  "Every file here is derived from public inputs alone; no secret material\n".toList ++
  "is required — or present — at any point.\n\n".toList ++
  "## Outcome\n\n".toList ++
  "- run_id: `".toList ++ status.runId.toList ++ "`\n".toList ++
  "- finalized: `".toList ++ (if status.finalized then "true" else "false").toList ++ "`\n".toList ++
  "- final_round: `".toList ++ Nat.toDigits 10 status.finalRound.toNat ++ "`\n".toList ++
  "- receipt_present: `".toList ++ (if status.receiptPresent then "true" else "false").toList ++ "`\n".toList ++
  (match status.abortReason with
    | some reason => "- abort_reason: `".toList ++ reason.toList ++ "`\n".toList
    | none => []) ++
  "- rejections_logged: `".toList ++ Nat.toDigits 10 status.rejectionCount ++ "`\n\n".toList ++
  "## Files\n\n".toList ++
  status.bundleFiles.flatMap (fun name => "- `".toList ++ name ++ "`\n".toList) ++
  "\n## Re-verify the bundle\n\n".toList ++
  "From a freshly-cloned checkout of the `vertex-veil` workspace, point the\n".toList ++
  "standalone verifier at this directory. The verifier reads the public\n".toList ++
  "coordination log only; do not attach secret fixture files to the\n".toList ++
  "bundle, and the verifier will never ask for them:\n\n".toList ++
  "```bash\n".toList ++
  "cargo run -p vertex-veil-agents -- verify --artifacts <path-to-this-dir>\n".toList ++
  "```\n\n".toList ++
  "A third party can also re-run the verifier programmatically via the\n".toList ++
  "`vertex-veil-core::StandaloneVerifier` API, feeding it the\n".toList ++
  "`coordination_log.json` and `topology.toml` from this bundle.\n".toList

/-- A session in process. -/
def session (Γ : Crypto) (topology : TopologyConfig) (agents : Agents) (scenario : Scenario) (maxRounds : UInt64)
    (salt : Bytes 32) (runId : String) : Except (Fault RuntimeError) RuntimeOutcome :=
  match Runtime.new topology OrderedBus.new agents scenario maxRounds with
  | .error e => .error (.error e)
  | .ok rt => (rt.withRunSalt salt).run Γ runId

/-- Verify the log of a bundle and renew its report and status. -/
def verify (Γ : Crypto) (F : Formats) (artifacts : PathBuf) : OnDisk (Fault RunError) VerifierReport := do
  if (← get).isDir artifacts.route = false then throw (.error (.io (.notADirectory artifacts)))
  let topology ← (OnDisk.look (TopologyConfig.load Γ F (artifacts.join (.utf8 topologyFile)))).mapErr
    fun e => .error (.topology e)
  let log ← io ((OnDisk.look (readBundleLog F artifacts)).mapErr .artifact)
  let report := verifyLog Γ topology log
  let writer ← io ((ArtifactWriter.new artifacts).mapErr .artifact)
  let _ ← io (writer.writeVerifierReport F report)
  let receipt := Run.pickFinalReceipt log
  let status := runStatus log log.finalized log.finalRound receipt (bundleFiles (← get) writer.dir)
  let _ ← io (writer.writeRunStatus F status)
  return report

end Run

end VertexVeil
