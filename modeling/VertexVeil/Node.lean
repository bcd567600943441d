import VertexVeil.Run
import VertexVeil.Sessions

/-!
# A node's process and its bundle

A node loads its configuration, keeps the agent it speaks for and runs sessions over one transport. After each session it replaces
the bundle in its directory. A process that is told to persist goes on with the next session, under the next run identifier.
-/

namespace VertexVeil

open Codec Files

/-! ## Paths given as text -/

theorem Dotless.append {r : Route OsStr} (h : Dotless r) {steps : List (Step OsStr)} (hs : Step.here ∉ steps) :
    Dotless { r with steps := r.steps ++ steps } := by
  intro hm
  dsimp only at hm
  split at hm
  · rename_i habs
    refine h ?_
    rw [if_pos habs]
    exact (List.mem_append.mp hm).resolve_right hs
  · rename_i habs
    cases hr : r.steps with
    | nil =>
      rw [hr, List.nil_append] at hm
      exact hs (List.mem_of_mem_tail hm)
    | cons step rest =>
      refine h ?_
      rw [if_neg habs, hr]
      rw [hr, List.cons_append, List.tail_cons] at hm
      exact (List.mem_append.mp hm).resolve_right hs

/-- What a node has loaded when it begins its first session. -/
structure NodeSetup where
  node : NodeId
  nodeAlias : Text
  topology : TopologyConfig
  agents : Agents
  scenario : Scenario
  topologyText : Text
  scenarioText : Option Text
  bundleDir : PathBuf
  maxRounds : UInt64
  runId : String
  persist : Bool

/-- What a node returns of a session. -/
structure NodeResult where
  nodeAlias : Text
  artifactsDir : PathBuf
  report : VerifierReport
  finalized : Bool
  abortReason : Option String

namespace Node

/-- `render_bundle_readme` -/
def renderBundleReadme (status : RunStatus) (nodeAlias : Text) : Text :=
  "# Vertex Veil Per-Node Bundle (".toList ++ nodeAlias ++ ")\n\n".toList ++
  "This directory holds one participant's public view of a multi-process\n".toList ++
  "Vertex-Veil coordination run. Every file here is derived from public\n".toList ++
  "inputs only; no private witness material is present.\n\n".toList ++
  "## Outcome\n\n".toList ++
  "- run_id: `".toList ++ status.runId.toList ++ "`\n".toList ++
  "- finalized: `".toList ++ (if status.finalized then "true" else "false").toList ++ "`\n".toList ++
  "- final_round: `".toList ++ Nat.toDigits 10 status.finalRound.toNat ++ "`\n".toList ++
  (match status.abortReason with
    | some reason => "- abort_reason: `".toList ++ reason.toList ++ "`\n".toList
    | none => []) ++
  "- rejections_logged: `".toList ++ Nat.toDigits 10 status.rejectionCount ++ "`\n\n".toList ++
  "## Re-verify\n\n```bash\n".toList ++
  "cargo run -p vertex-veil-agents -- verify --artifacts <path-to-this-dir>\n".toList ++
  "```\n".toList

/-- Write a copy of the scenario, if there is one. -/
def writeScenario (dir : PathBuf) (scenarioText : Option Text) : OnDisk DiskError Unit :=
  match scenarioText with
  | none => return ()
  | some text => OnDisk.mapErr (writeFile (dir.join (.utf8 scenarioFile)) text) .system

/-- Replace the bundle of a node, and return the report. -/
def persistNodeBundle (Γ : Crypto) (F : Formats) (bundleDir : PathBuf) (topology : TopologyConfig) (topologyText : Text)
    (scenarioText : Option Text) (nodeAlias : Text) (outcome : RuntimeOutcome) : OnDisk DiskError VerifierReport := do
  let writer ← OnDisk.mapErr (ArtifactWriter.new bundleDir) .artifact
  OnDisk.mapErr (cleanOwnedFiles writer.dir) .system
  let _ ← writer.writeCoordinationLog F outcome.log
  OnDisk.mapErr (writeFile (writer.dir.join (.utf8 topologyFile)) topologyText) .system
  writeScenario writer.dir scenarioText
  let report := verifyLog Γ topology outcome.log
  let _ ← writer.writeVerifierReport F report
  let receipt := Node.pickFinalReceipt outcome.log
  let _ ← writer.writeReceiptCopy F receipt
  let status := runStatus outcome.log outcome.finalized outcome.finalRound receipt (bundleFiles (← get) writer.dir)
  let _ ← writer.writeRunStatus F status
  let _ ← writer.writeBundleReadme (renderBundleReadme status nodeAlias)
  return report

/-- A number in decimal, with zeros up to three digits. -/
def padded (n : Nat) : Text :=
  let digits := Nat.toDigits 10 n
  List.replicate (3 - digits.length) '0' ++ digits

/-- The run identifier of a session. -/
def sessionRunId (persist : Bool) (runId : String) (index : UInt64) : String :=
  if persist then runId ++ "-r" ++ String.ofList (padded index.toNat) else runId

/-- The next session's index; it stays at the last one. -/
def nextIndex (index : UInt64) : UInt64 := if index = 0xFFFFFFFFFFFFFFFF then index else index + 1

end Node

/-- The session of an index. -/
def NodeSetup.session (n : NodeSetup) (index : UInt64) (salt : Bytes 32) : SessionConfig where
  topology := n.topology
  agents := n.agents
  scenario := n.scenario
  maxRounds := n.maxRounds
  salt := salt
  runId := Node.sessionRunId n.persist n.runId index

/-! ## Sessions and bundles -/

/-- Where a node is in its loop: in a session, after the bundle of a session was written, or given up because it was not. -/
inductive NodePhase where
  | running
  | saved
  | failed (e : DiskError)

/-- A node with its disk: its sessions, the index of the current one and the last result. -/
structure NodeHost where
  host : Host
  disk : Disk
  phase : NodePhase
  index : UInt64
  latest : Option NodeResult

/-- What happens at a node: a step of its host within a session, the bundle of a session is written, the next session begins, or
somebody verifies a bundle that was written. -/
inductive NodeStep where
  | deliver
  | act
  | others (msg : CoordinationMessage)
  | persist
  | next (salt : Bytes 32)
  | verify

namespace NodeHost

/-- Write the bundle of a session that is over. -/
def save (Γ : Crypto) (F : Formats) (n : NodeSetup) (x : NodeHost) (outcome : RuntimeOutcome) : NodeHost :=
  match Node.persistNodeBundle Γ F n.bundleDir n.topology n.topologyText n.scenarioText n.nodeAlias outcome x.disk with
  | .error e disk => { x with disk, phase := .failed e }
  | .ok report disk =>
    { x with
      disk, phase := .saved
      latest := some { nodeAlias := n.nodeAlias, artifactsDir := n.bundleDir, report, finalized := outcome.finalized,
                       abortReason := outcome.log.abortReason } }

/-- A step, where it is enabled. -/
def exec (Γ : Crypto) (F : Formats) (n : NodeSetup) (x : NodeHost) : NodeStep → Option NodeHost
  | .deliver => (x.host.exec Γ .deliver).map fun host => { x with host }
  | .act => (x.host.exec Γ .act).map fun host => { x with host }
  | .others msg => (x.host.exec Γ (.others msg)).map fun host => { x with host }
  | .persist =>
    match x.phase, x.host.process with
    | .running, .returned outcome => some (x.save Γ F n outcome)
    | _, _ => none
  | .next salt =>
    match n.persist, x.phase with
    | true, .saved =>
      let index := Node.nextIndex x.index
      (x.host.exec Γ (.next (n.session index salt))).map fun host => { x with host, phase := .running, index }
    | _, _ => none
  | .verify => x.latest.map fun _ =>
    match Run.verify Γ F n.bundleDir x.disk with
    | .ok _ disk | .error _ disk => { x with disk }

end NodeHost

end VertexVeil
