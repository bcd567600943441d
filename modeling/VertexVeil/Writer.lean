import Mathlib.Data.Char
import Mathlib.Data.Finset.Option
import Mathlib.Data.Finset.Sort
import Mathlib.Data.List.Lex
import VertexVeil.Bundle
import VertexVeil.Lib.Writes
import VertexVeil.Persistence
import VertexVeil.Scenario
import VertexVeil.Storage

/-!
# The files of a bundle

The writer puts the files of a run into its directory and the reader reads the log back. What a call did to the disk stays done when
it fails later. How records are written as text is the serializers' affair (`Formats`); only the log is ever read back.
-/

namespace VertexVeil

open Codec Files

/-- The contents of a file: text, or bytes that are none. -/
inductive Contents where
  | utf8 (s : Text)
  | other (bytes : List UInt8)
  deriving DecidableEq

abbrev Disk : Type := FileSystem OsStr Contents

/-- A computation on the disk. -/
abbrev OnDisk (ε α : Type) : Type := EStateM ε Disk α

namespace OnDisk

variable {ε ε' α : Type}

/-- A computation that only looks at the disk. -/
def look (f : Disk → Except ε α) : OnDisk ε α := fun disk =>
  match f disk with
  | .ok a => .ok a disk
  | .error e => .error e disk

/-- A computation given by what it returns and the disk it leaves. -/
def call (f : Disk → Except ε α × Disk) : OnDisk ε α := fun disk =>
  match f disk with
  | (.ok a, disk) => .ok a disk
  | (.error e, disk) => .error e disk

/-- `map_err` -/
def mapErr (x : OnDisk ε α) (f : ε → ε') : OnDisk ε' α := x.adaptExcept f

end OnDisk

/-- Why a bundle was not read or written: an error of the writer or reader, one of the system, or a directory that is none. The
error for a log that is there already names its path. -/
inductive DiskError where
  | artifact (e : ArtifactError)
  | directoryNotEmpty (out : PathBuf)
  | system (why : String)
  | notADirectory (path : PathBuf)

/-- The run status: the public summary of a run. -/
structure RunStatus where
  runId : String
  finalized : Bool
  finalRound : RoundId
  receiptPresent : Bool
  abortReason : Option String
  rejectionCount : Nat
  bundleFiles : List Text
  deriving DecidableEq

/-- A configuration of events as parsed. -/
structure ScenarioRaw where
  version : UInt32
  events : List ScenarioEvent

/-- What the program relies on: a parser for each of its three configuration files, which gives a value or a message, and the
serializers of the records it writes. -/
structure Formats where
  topology : Text → Except Text TopologyConfigRaw
  bundle : Text → Except Text RawBundle
  scenario : Text → Except Text ScenarioRaw
  log : LogSerde
  report : VerifierReport → Text
  status : RunStatus → Text
  receipt : CompletionReceiptRecord → Text

/-! ## The JSON of the records -/

namespace RunStatus

end RunStatus

/-! ## Files -/

/-- `fs::read_to_string` -/
def readToString (disk : Disk) (path : PathBuf) : Except String Text :=
  match disk.read path.route with
  | .error e => .error (osError e)
  | .ok (.utf8 s) => .ok s
  | .ok (.other _) => .error "stream did not contain valid UTF-8"

/-- `fs::write` -/
def writeFile (path : PathBuf) (text : Text) : OnDisk String Unit := fun disk =>
  match disk.write path.route (.utf8 text) with
  | .error e => .error (osError e) disk
  | .ok disk => .ok () disk

/-- `fs::remove_file` -/
def removeFile (path : PathBuf) : OnDisk String Unit := fun disk =>
  match disk.unlink path.route with
  | .error e => .error (osError e) disk
  | .ok disk => .ok () disk

/-! ## The writer -/

def coordinationLogFile : Text := "coordination_log.json".toList
def verifierReportFile : Text := "verifier_report.json".toList
def runStatusFile : Text := "run_status.json".toList
def completionReceiptFile : Text := "completion_receipt.json".toList
def topologyFile : Text := "topology.toml".toList
def scenarioFile : Text := "scenario.toml".toList
def bundleReadmeFile : Text := "bundle_README.md".toList

namespace ArtifactWriter

/-- Open a writer on a directory, which is created when it does not exist. -/
def new (dir : PathBuf) : OnDisk ArtifactError ArtifactWriter := fun disk =>
  match validateOutputPath dir with
  | .error e => .error e disk
  | .ok () =>
    if disk.pathExists dir.route then
      if disk.isDir dir.route then .ok { dir } disk
      else .error (.invalidOutputPath "artifact path exists and is not a directory") disk
    else
      match disk.createDirAll dir.route with
      | (.error e, disk) => .error (.io (osError e)) disk
      | (.ok (), disk) => .ok { dir } disk

/-- Write a file of the bundle, over one that is there. -/
def writeText (w : ArtifactWriter) (name text : Text) : OnDisk DiskError PathBuf := do
  let out := w.dir.join (.utf8 name)
  OnDisk.mapErr (writeFile out text) (fun why => .artifact (.io why))
  return out

/-- Write the log, unless one is there. -/
def writeCoordinationLog (w : ArtifactWriter) (F : Formats) (log : CoordinationLog) : OnDisk DiskError PathBuf := do
  let out := w.dir.join (.utf8 coordinationLogFile)
  if (← get).pathExists out.route then throw (.directoryNotEmpty out)
  w.writeText coordinationLogFile (F.log.toString log)

def writeVerifierReport (w : ArtifactWriter) (F : Formats) (report : VerifierReport) : OnDisk DiskError PathBuf :=
  w.writeText verifierReportFile (F.report report)

def writeRunStatus (w : ArtifactWriter) (F : Formats) (status : RunStatus) : OnDisk DiskError PathBuf :=
  w.writeText runStatusFile (F.status status)

/-- Write a copy of the receipt, if there is one. -/
def writeReceiptCopy (w : ArtifactWriter) (F : Formats) (receipt : Option CompletionReceiptRecord) :
    OnDisk DiskError (Option PathBuf) :=
  match receipt with
  | none => return none
  | some r => return some (← w.writeText completionReceiptFile (F.receipt r))

def writeBundleReadme (w : ArtifactWriter) (body : Text) : OnDisk DiskError PathBuf := w.writeText bundleReadmeFile body

end ArtifactWriter

/-- Read the log of a bundle, with its index computed again. -/
def readBundleLog (F : Formats) (dir : PathBuf) (disk : Disk) : Except ArtifactError CoordinationLog :=
  match readToString disk (dir.join (.utf8 coordinationLogFile)) with
  | .error why => .error (.io why)
  | .ok text => readCoordinationLog F.log text

/-! ## What the directory holds -/

/-- Names in order. -/
abbrev inOrder (names : Finset Text) : List Text := names.sort

/-- The names in a directory that are text, in order; none when it cannot be listed. -/
def listBundleFiles (disk : Disk) (dir : PathBuf) : List Text :=
  match disk.readDir dir.route with
  | .error _ => []
  | .ok entries => (entries.image fun p => p.getLast?.bind OsStr.toStr).eraseNone |> inOrder

/-- The names of the bundle's files: those in the directory and the two that are written last. -/
def bundleFiles (disk : Disk) (dir : PathBuf) : List Text :=
  let files := [runStatusFile, bundleReadmeFile].foldl
    (fun files name => if name ∈ files then files else files ++ [name]) (listBundleFiles disk dir)
  files.insertionSort (· ≤ ·)

/-- The status of a run: what its log says and the files of its bundle. -/
def runStatus (log : CoordinationLog) (finalized : Bool) (finalRound : RoundId) (receipt : Option CompletionReceiptRecord)
    (files : List Text) : RunStatus :=
  { runId := log.runId, finalized, finalRound, receiptPresent := receipt.isSome, abortReason := log.abortReason,
    rejectionCount := log.rejections.length, bundleFiles := files }

/-- The files the writers own. -/
def ownedFiles : List Text :=
  [coordinationLogFile, verifierReportFile, runStatusFile, completionReceiptFile, topologyFile, scenarioFile, bundleReadmeFile]

/-- Remove the files of a list that exist. -/
def removeOwned (dir : PathBuf) : List Text → OnDisk String Unit
  | [] => return ()
  | name :: names => do
    let p := dir.join (.utf8 name)
    if (← get).pathExists p.route then removeFile p
    removeOwned dir names

/-- Remove the files the writers own, and nothing else. -/
def cleanOwned (dir : PathBuf) : OnDisk String Unit := do
  if (← get).pathExists dir.route then removeOwned dir ownedFiles

/-- `node.rs` -/
def Node.cleanOwnedFiles (dir : PathBuf) : OnDisk String Unit := cleanOwned dir

end VertexVeil
