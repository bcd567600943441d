import VertexVeil.Redaction
import VertexVeil.Writer

/-!
# Loading configuration from files

The three loaders refuse a path with a `..` in it, read the file and hand its text to the parser. A parser's message is cut down
before it is shown.
-/

namespace VertexVeil

open Codec Files

/-- Errors of loading a topology or a scenario; `config` is what validation finds. -/
inductive LoadError where
  | unsafePath (why : String)
  | io (why : String)
  | parse (message : Text)
  | unsupportedScenarioVersion (version : UInt32)
  | config (e : ConfigError)

/-- Errors of loading private intents; `bundle` is what parsing and validation find. -/
inductive PrivateLoadError where
  | unsafePath (why : String)
  | io (why : String)
  | bundle (e : PrivateIntentError)

/-- Whether a path climbs to a parent directory. -/
def PathBuf.hasParentDir (path : PathBuf) : Prop := Step.up ∈ path.route.steps

instance (path : PathBuf) : Decidable path.hasParentDir := inferInstanceAs (Decidable (Step.up ∈ path.route.steps))

namespace TopologyConfig

/-- Parse and validate a topology. -/
def fromTomlStr (Γ : Crypto) (F : Formats) (text : Text) : Except LoadError TopologyConfig :=
  match F.topology text with
  | .error message => .error (.parse (cleanedLines message))
  | .ok raw =>
    match fromRaw Γ raw with
    | .error e => .error (.config e)
    | .ok t => .ok t

/-- Load a topology from a file. -/
def load (Γ : Crypto) (F : Formats) (path : PathBuf) (disk : Disk) : Except LoadError TopologyConfig :=
  if path.hasParentDir then .error (.unsafePath "path must not contain '..' segments")
  else
    match readToString disk path with
    | .error why => .error (.io why)
    | .ok text => fromTomlStr Γ F text

/-- What a load that succeeds has read. -/
theorem load_eq_ok {Γ : Crypto} {F : Formats} {path : PathBuf} {disk : Disk} {t : TopologyConfig} :
    load Γ F path disk = .ok t ↔
      ¬ path.hasParentDir ∧ ∃ text, readToString disk path = .ok text ∧ fromTomlStr Γ F text = .ok t := by
  unfold load
  split
  · rename_i hup
    exact iff_of_false (by simp) (fun h => h.1 hup)
  · rename_i hup
    split
    · rename_i he
      exact iff_of_false (by simp) (fun ⟨_, text, h, _⟩ => by rw [he] at h; cases h)
    · rename_i text hr
      exact ⟨fun h => ⟨hup, text, hr, h⟩, fun ⟨_, text', h, ht⟩ => Except.ok.inj (hr.symm.trans h) ▸ ht⟩

end TopologyConfig

namespace Scenario

/-- Parse a scenario. -/
def fromTomlStr (F : Formats) (text : Text) : Except LoadError Scenario :=
  match F.scenario text with
  | .error message => .error (.parse (cleanedLines message))
  | .ok raw => if raw.version ≠ 1 then .error (.unsupportedScenarioVersion raw.version) else .ok { events := raw.events }

/-- Load a scenario from a file. -/
def load (F : Formats) (path : PathBuf) (disk : Disk) : Except LoadError Scenario :=
  if path.hasParentDir then .error (.unsafePath "scenario path must not contain '..' segments")
  else
    match readToString disk path with
    | .error why => .error (.io why)
    | .ok text => fromTomlStr F text

end Scenario

namespace PrivateIntents

/-- Load a private-intent bundle from a file, for a topology. -/
def load (Γ : Crypto) (F : Formats) (path : PathBuf) (t : TopologyConfig) (disk : Disk) : Except (Fault PrivateLoadError) Agents :=
  if path.hasParentDir then .error (.error (.unsafePath "private-intent path must not contain '..' segments"))
  else
    match readToString disk path with
    | .error why => .error (.error (.io why))
    | .ok text =>
      match VertexVeil.fromTomlStr F.bundle Γ t text with
      | .error (.error e) => .error (.error (.bundle e))
      | .error (.panic msg) => .error (.panic msg)
      | .ok agents => .ok agents

/-- The part of a name before its last dot: `file_stem`. A dot that begins the name is part of it. -/
def stemOf {α : Type} [DecidableEq α] (dot : α) (name : List α) : List α :=
  match name with
  | [] => []
  | first :: rest =>
    if dot ∈ rest then first :: ((rest.reverse.dropWhile (· ≠ dot)).tail.reverse) else name

/-- The stem of a name, where it is text. -/
def OsStr.stem : OsStr → Option Text
  | .utf8 s => some (stemOf '.' s)
  | .other bytes => (String.fromUTF8? ⟨(stemOf 46 bytes).toArray⟩).map String.toList

example : stemOf '.' "a.b.toml".toList = "a.b".toList := by decide

end PrivateIntents

end VertexVeil
