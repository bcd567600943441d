import VertexVeil.Lib.Codec
import VertexVeil.Lib.Transition
import VertexVeil.Lib.Broadcast
import VertexVeil.Lib.Json
import VertexVeil.Lib.Lines
import VertexVeil.Lib.Fifo
import VertexVeil.Lib.Files
import VertexVeil.Lib.Walks
import VertexVeil.Lib.Renames
import VertexVeil.Keys
import VertexVeil.Intents
import VertexVeil.Signing
import VertexVeil.Config
import VertexVeil.Commitments
import VertexVeil.Artifacts
import VertexVeil.Bundle
import VertexVeil.Matching
import VertexVeil.RoundMachine
import VertexVeil.Scenario
import VertexVeil.PrivateIntents
import VertexVeil.Redaction
import VertexVeil.ProofArtifact
import VertexVeil.Circuits
import VertexVeil.Transport
import VertexVeil.Runtime
import VertexVeil.Network
import VertexVeil.Trace
import VertexVeil.Serde
import VertexVeil.Persistence
import VertexVeil.Storage
import VertexVeil.VertexTransport
import VertexVeil.Worker
import VertexVeil.Sessions
import VertexVeil.Verifier
import VertexVeil.Soundness
import VertexVeil.Tampering
import VertexVeil.Replay
import VertexVeil.Fixtures
import VertexVeil.DiskFixtures
import VertexVeil.Lemmas.Config
import VertexVeil.Lemmas.PrivateIntents
import VertexVeil.Lemmas.Redaction
import VertexVeil.Lemmas.Verifier
import VertexVeil.Lemmas.Replay
import VertexVeil.Lemmas.RoundMachine
import VertexVeil.Lemmas.Archive
import VertexVeil.Lemmas.Handlers
import VertexVeil.Lemmas.Layout
import VertexVeil.Lemmas.Tampering
import VertexVeil.Lemmas.Rounds
import VertexVeil.Lemmas.Ledger
import VertexVeil.Lemmas.Panics
import VertexVeil.Lemmas.Embedded
import VertexVeil.Lemmas.Alike
import VertexVeil.Lemmas.Thinned
import VertexVeil.Lemmas.OwnCommitments
import VertexVeil.Lemmas.InProcess
import VertexVeil.Lemmas.Progress
import VertexVeil.Lemmas.Trace
import VertexVeil.Lemmas.RunTrace
import VertexVeil.Lemmas.Silence
import VertexVeil.Lemmas.Prices
import VertexVeil.Lemmas.Network
import VertexVeil.Lemmas.Agreement
import VertexVeil.Lemmas.Sessions
import VertexVeil.Lemmas.Circuits
import VertexVeil.Lemmas.Storage
import VertexVeil.Theorems.Verifier
import VertexVeil.Theorems.Verdict
import VertexVeil.Theorems.Replay
import VertexVeil.Theorems.RoundMachine
import VertexVeil.Theorems.Signatures
import VertexVeil.Theorems.Runtime
import VertexVeil.Theorems.Receipts
import VertexVeil.Theorems.Progress
import VertexVeil.Theorems.Trace
import VertexVeil.Theorems.Dropped
import VertexVeil.Theorems.Silence
import VertexVeil.Theorems.Prices
import VertexVeil.Theorems.Network
import VertexVeil.Theorems.Authenticity
import VertexVeil.Theorems.Sessions
import VertexVeil.Theorems.Deliveries
import VertexVeil.Theorems.Proofs
import VertexVeil.Theorems.Tampering
import VertexVeil.Theorems.Circuits
import VertexVeil.Theorems.Commitments
import VertexVeil.Theorems.Matching
import VertexVeil.Theorems.Config
import VertexVeil.Theorems.Bundle
import VertexVeil.Theorems.Limits
import VertexVeil.Theorems.Panics
import VertexVeil.Theorems.Redaction
import VertexVeil.Theorems.PrivateIntents
import VertexVeil.Theorems.Rotation
import VertexVeil.Theorems.PublicInputs
import VertexVeil.Theorems.Worker
import VertexVeil.Theorems.Persistence
import VertexVeil.Theorems.Storage
import VertexVeil.Console
import VertexVeil.Theorems.Orchestrator
import VertexVeil.Lemmas.Cluster
import VertexVeil.Lemmas.Observer
import VertexVeil.Lemmas.RunBundle
import VertexVeil.LocalRuns
import VertexVeil.Theorems.Cluster
import VertexVeil.Theorems.Demo
import VertexVeil.Theorems.LocalRuns
import VertexVeil.Theorems.Node
import VertexVeil.Theorems.Observer
