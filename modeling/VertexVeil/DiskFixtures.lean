import VertexVeil.Fixtures
import VertexVeil.Run

/-!
# The small deployment on disk

The configuration files of the deployment in a working directory, with a directory for its bundles beside them. Its parsers know
these files; its records are written as JSON.
-/

namespace VertexVeil
namespace Sample

open Codec Files Files.FileSystem

/-! ## Configuration files -/

/-- A line of a configuration file; a field with nothing in it has none. -/
def line (key : String) (value : Option Text) : Text :=
  value.elim [] fun v => key.toList ++ " = ".toList ++ v ++ "\n".toList

def quoted (s : Text) : Text := ['"'] ++ s ++ ['"']

def quotedList (l : List Text) : Text := ['['] ++ ", ".toList.intercalate (l.map quoted) ++ [']']

def decimal (n : UInt64) : Text := Nat.toDigits 10 n.toNat

def roleText : Role → Text
  | .requester => "requester".toList
  | .provider => "provider".toList

/-- A topology as a file has it. -/
def topologyToml (raw : TopologyConfigRaw) : Text :=
  line "version" (some "1".toList) ++ line "capability_tags" (some (quotedList raw.capabilityTags)) ++
    raw.nodes.flatMap fun n =>
      "\n[[nodes]]\n".toList ++ line "id" (some (quoted n.id)) ++ line "role" (some (quoted (roleText n.role))) ++
        line "required_capability" (n.requiredCapability.map quoted) ++
        line "capability_claims" (n.capabilityClaims.map quotedList) ++
        line "signing_public_key" (n.signingPublicKey.map quoted)

/-- Private intents as a file has them. -/
def bundleToml (raw : RawBundle) : Text :=
  line "version" (some "1".toList) ++
    raw.agents.flatMap fun a =>
      "\n[[agents]]\n".toList ++ line "node" (some (quoted a.node)) ++ line "role" (some (quoted a.role)) ++
        line "required_capability" (a.requiredCapability.map quoted) ++
        line "capability_claims" (a.capabilityClaims.map quotedList) ++
        line "budget_cents" (a.budgetCents.map decimal) ++
        line "reservation_cents" (a.reservationCents.map decimal) ++
        line "signing_secret_key" (a.signingSecretKey.map quoted)

def topologyText : Text := topologyToml topology.raw

def bundleText : Text := bundleToml (bundle 0 1)

theorem dotless_nil : Dotless (⟨false, []⟩ : Route OsStr) := by simp [Dotless]

def workingDir : PathBuf := { route := { absolute := false, steps := [] }, dotless := dotless_nil }

def topologyPath : PathBuf := workingDir.join (.utf8 topologyFile)

def privateFile : OsStr := .utf8 "topology.private.toml".toList

def out : Text := "out".toList

def outPath : PathBuf := workingDir.join (.utf8 out)

/-- The configuration files in a directory with nothing else in it. -/
def inputs : Disk :=
  ((bare 40).insert { dir := [], name := .utf8 topologyFile, directory := rfl } (.file (.utf8 topologyText)) rfl).insert
    { dir := [], name := privateFile, directory := node_insert_of_ne _ _ _ (by decide) } (.file (.utf8 bundleText)) rfl

/-- Beside them a directory with a file that is none of a bundle. -/
def disk : Disk :=
  (inputs.insert { dir := [], name := .utf8 out, directory := by decide +kernel } .directory (by decide +kernel)).insert
    { dir := [.utf8 out], name := .utf8 "notes.txt".toList, directory := node_insert_self _ _ _ } (.file (.utf8 [])) (by decide +kernel)

end Sample
end VertexVeil
