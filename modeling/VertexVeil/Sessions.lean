import VertexVeil.Lib.Transition
import VertexVeil.Network

/-!
# Sessions over one transport

A host runs one session after another over the transport the one before returned; each has a runtime of its own. The transport
may hold messages back but keeps their order: a drain loop takes as many of them as have arrived, and the rest stays. A message on
its way carries the number of the session in which it was broadcast, which the runtime does not see.
-/

namespace VertexVeil

open Codec

/-- What a session is run with. -/
structure SessionConfig where
  topology : TopologyConfig
  agents : Agents
  scenario : Scenario
  maxRounds : UInt64
  salt : Bytes 32
  runId : String

/-- A session about to run, when its runtime can be built. -/
def SessionConfig.process (c : SessionConfig) : Option Process :=
  match Runtime.new c.topology () c.agents c.scenario c.maxRounds with
  | .ok rt => some (.ready ((rt.withRunSalt c.salt).withLog c.runId).state)
  | .error _ => none

/-- A message and the session in which it was broadcast. -/
structure Dated where
  session : Nat
  msg : CoordinationMessage
  deriving DecidableEq

/-- A host: its current session, what the transport has not delivered, what of it was there when the session started, and the
messages of which the session has appended a record to its log. -/
structure Host where
  session : Nat
  process : Process
  queue : List Dated
  backlog : List Dated
  appended : List Dated

/-- A process is in a drain loop. -/
def Process.isDraining : Process → Bool
  | .draining _ => true
  | _ => false

/-- What happens at a host: a message is delivered, the process takes its own step, another node broadcasts over the transport,
or the next session is set up. -/
inductive HostStep where
  | deliver
  | act
  | others (msg : CoordinationMessage)
  | next (c : SessionConfig)

namespace Host

/-- A host before its first session. -/
def boot (p : Process) : Host := { session := 0, process := p, queue := [], backlog := [], appended := [] }

/-- Messages on their way. -/
def broadcast (x : Host) (msgs : List CoordinationMessage) : Host :=
  { x with queue := x.queue ++ msgs.map (Dated.mk x.session) }

/-- The oldest message is delivered to a drain loop. -/
def deliver (x : Host) (s : Session) (q : Dated) (rest : List Dated) : Host :=
  { x with
    process := .draining (s.hear q.msg), queue := rest
    appended := if (s.hear q.msg).state.log.messages = s.state.log.messages then x.appended else x.appended ++ [q] }

/-- The next session over the same transport. -/
def next (x : Host) (p : Process) : Host :=
  { x with session := x.session + 1, process := p, backlog := x.queue, appended := [] }

/-- A step, where it is enabled. -/
def exec (Γ : Crypto) (x : Host) : HostStep → Option Host
  | .deliver =>
    match x.process, x.queue with
    | .draining s, q :: rest => some (x.deliver s q rest)
    | _, _ => none
  | .act => ((protocol Γ).act x.process).map fun y => { x with process := y.2 }.broadcast y.1
  | .others msg => some (x.broadcast [msg])
  | .next c =>
    match x.process with
    | .returned _ => c.process.map x.next
    | _ => none

/-- The steps over a transport that holds nothing back: a drain loop ends when nothing is left, and other nodes broadcast in
the drain loops only. -/
def prompt (x : Host) : HostStep → Bool
  | .act => !x.process.isDraining || x.queue.isEmpty
  | .others _ => x.process.isDraining
  | _ => true

end Host

/-- Hosts over a transport with any delay. -/
def hosts (Γ : Crypto) : Transition.Machine Host HostStep where
  start x := ∃ c : SessionConfig, ∃ p, c.process = some p ∧ x = .boot p
  exec := Host.exec Γ

/-- Hosts over a transport without delay. -/
def promptHosts (Γ : Crypto) : Transition.Machine Host HostStep := (hosts Γ).restrict Host.prompt

end VertexVeil
