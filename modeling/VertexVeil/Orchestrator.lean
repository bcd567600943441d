import VertexVeil.Console
import VertexVeil.Lib.Jobs
import VertexVeil.Lib.Transition
import VertexVeil.Storage

/-!
# The orchestrator of a cluster

`run_orchestrator` starts a child process for every node of the topology and reads what the children print, each in a thread of its
own. When the target of the failure injection says that a given round is over it is killed, and started again after a while if
that was asked for. The loop ends when every child has, or at a deadline. The calls of the loop that wait are taken apart, so that
the children, the reading threads and the clock go on between them. Which child sent an event, when a child was started and which
ones the injection killed are kept beside the state.
-/

namespace VertexVeil

open Codec Jobs

/-- Errors of the orchestrator. -/
inductive OrchestrateError where
  | topology (why : String)
  | io (why : String)
  | spawn (nodeAlias : Text)
  | timeout (why : String)
  deriving DecidableEq

/-- The arguments of the orchestrator. -/
structure OrchestrateArgs where
  topology : PathBuf
  privateIntents : PathBuf
  scenario : Option PathBuf
  artifacts : PathBuf
  basePort : UInt16
  failAtRound : Option UInt64
  rejoinAfterMs : Option UInt64
  failTarget : Option Text
  maxRounds : UInt64
  runId : String
  pollTimeoutMs : UInt64

/-! ## The children -/

/-- What the orchestrator knows of a node: its keys are generated. -/
structure NodeSpec where
  nodeAlias : Text
  nodeIdHex : Text
  bind : Text
  vertexPubkey : Text
  vertexSecret : Text
  deriving DecidableEq

/-- The arguments of a child, with the secret it finds in its environment. -/
structure ChildCommand where
  bind : Text
  nodeId : Text
  nodeAlias : Text
  topology : PathBuf
  privateIntents : PathBuf
  artifacts : PathBuf
  maxRounds : UInt64
  runId : String
  pollTimeoutMs : UInt64
  scenario : Option PathBuf
  rejoin : Bool
  peers : List Text
  secretEnv : Text
  secret : Text

/-- The lines of a child whose session tells these. -/
def ChildCommand.output (c : ChildCommand) (told : List Milestone) : List Text :=
  Node.output c.nodeAlias c.bind c.peers.length c.rejoin told

namespace Orchestrate

/-- `args.base_port + idx as u16` -/
def portOf (basePort : UInt16) (idx : Nat) : Option UInt16 :=
  if basePort.toNat + (UInt16.ofNat idx).toNat < 2 ^ 16 then some (basePort + UInt16.ofNat idx) else none

/-- The alias of a node, by its place. -/
def aliasOf (idx : Nat) : Text := 'n' :: Nat.toDigits 10 (idx + 1)

/-- The nodes of a list, from one place on. -/
def specsFrom (basePort : UInt16) (keys : Nat → Text × Text) : Nat → List NodeConfig → Except (Fault OrchestrateError) (List NodeSpec)
  | _, [] => .ok []
  | idx, nc :: rest =>
    match portOf basePort idx with
    | none => .error (.panic "attempt to add with overflow")
    | some port =>
      match specsFrom basePort keys (idx + 1) rest with
      | .error e => .error e
      | .ok specs => .ok (
          { nodeAlias := aliasOf idx, nodeIdHex := nc.id.toHex, bind := "127.0.0.1:".toList ++ Nat.toDigits 10 port.toNat,
            vertexPubkey := (keys idx).1, vertexSecret := (keys idx).2 } :: specs)

/-- The nodes of a topology, in the order of their identifiers. -/
def nodeSpecs (basePort : UInt16) (keys : Nat → Text × Text) (topology : TopologyConfig) :
    Except (Fault OrchestrateError) (List NodeSpec) :=
  let ordered := topology.nodes.insertionSort (fun a b => a.id ≤ b.id)
  if ordered.length < 2 then .error (.error (.topology "need at least 2 topology nodes to orchestrate"))
  else specsFrom basePort keys 0 ordered

/-- The peers of a node: every other node. -/
def peersOf (all : List NodeSpec) (selfIdx : Nat) : List Text :=
  (all.zipIdx.filter (·.2 ≠ selfIdx)).map fun x => x.1.vertexPubkey ++ "@".toList ++ x.1.bind

/-- The command of `spawn_one`. -/
def spawnOne (args : OrchestrateArgs) (spec : NodeSpec) (all : List NodeSpec) (selfIdx : Nat) (rejoin : Bool) : ChildCommand where
  bind := spec.bind
  nodeId := spec.nodeIdHex
  nodeAlias := spec.nodeAlias
  topology := args.topology
  privateIntents := args.privateIntents
  artifacts := args.artifacts
  maxRounds := args.maxRounds
  runId := args.runId
  pollTimeoutMs := args.pollTimeoutMs
  scenario := args.scenario
  rejoin := rejoin
  peers := peersOf all selfIdx
  secretEnv := "VERTEX_SECRET_".toList ++ spec.nodeAlias.map Char.toUpper
  secret := spec.vertexSecret

/-- The node that the failure injection is for: the last one, if none is named. -/
def failTargetAlias (args : OrchestrateArgs) (specs : List NodeSpec) : Text :=
  args.failTarget.getD ((specs.getLast?.map (·.nodeAlias)).getD [])

end Orchestrate

/-! ## The loop -/

/-- What is known of a child: its command, when it was started, the lines it has printed and how many of them its thread has read. -/
structure Child where
  command : ChildCommand
  spawnedAt : Nat
  printed : List Text
  read : Nat

/-- The child prints a line. -/
def Child.print (line : Text) (c : Child) : Child := { c with printed := c.printed ++ [line] }

/-- Its thread has read one more. -/
def Child.readNext (c : Child) : Child := { c with read := c.read + 1 }

/-- The events of the loop. No thread sends the second kind. -/
inductive OrchEvent where
  | roundCommitted (nodeAlias : Text) (round : UInt64)
  | childExited (nodeAlias : Text) (code : Int)
  deriving DecidableEq

/-- An event, with the child whose line it was made of. -/
structure Sent where
  pid : Nat
  event : OrchEvent
  deriving DecidableEq

/-- Where the orchestrator is. -/
inductive OrchPoint where
  | starting (idx : Nat)
  | looping
  | receiving (since : Nat)
  | checking (todo toRemove : List Text)
  | returned
  | failed (e : OrchestrateError)
  | panicked
  deriving DecidableEq

/-- Whether the orchestrator still runs, and its threads with it. -/
def OrchPoint.runs : OrchPoint → Bool
  | returned | failed _ | panicked => false
  | _ => true

/-- The orchestrator and its children. Times are in milliseconds. -/
structure Orchestration where
  table : Table Text Child
  channel : List Sent
  killedOnce : Bool
  rejoinSpawnAt : Option Nat
  now : Nat
  deadline : Nat
  point : OrchPoint
  observed : List Sent
  kills : List (Nat × Nat)

/-- What happens: a child prints a line or ends, a thread reads a line, time passes, the orchestrator starts the next child or comes
to its loop, begins an iteration, receives an event or gives up waiting for one, and looks whether a child has ended. Starting a
process succeeds or not. -/
inductive OrchStep where
  | print (pid : Nat) (line : Text)
  | finish (pid : Nat)
  | read (pid : Nat)
  | tick (ms : Nat)
  | spawn (ok : Bool)
  | iterate (ok : Bool)
  | receive
  | timeout
  | tryWait

namespace Orchestration

/-- Before the first child is started. -/
def initial (now : Nat) : Orchestration where
  table := .empty
  channel := []
  killedOnce := false
  rejoinSpawnAt := none
  now := now
  deadline := now
  point := .starting 0
  observed := []
  kills := []

/-- Start a child, and go on. -/
def launch (s : Orchestration) (command : ChildCommand) (point : OrchPoint) : Orchestration :=
  { s with table := s.table.start command.nodeAlias { command, spawnedAt := s.now, printed := [], read := 0 }, point }

/-- The thread of a child reads a line: an event, if it says that a round is over. -/
def readLine (s : Orchestration) (pid : Nat) (child : Child) (line : Text) : Orchestration :=
  { s with
    table := s.table.update pid Child.readNext
    channel := s.channel ++ (parseRoundCommitted line).toList.map fun round =>
      { pid, event := .roundCommitted child.command.nodeAlias round } }

/-- The head of the loop: the deadline, and a child to be started again. -/
def iterate (args : OrchestrateArgs) (specs : List NodeSpec) (ok : Bool) (s : Orchestration) : Orchestration :=
  if s.now > s.deadline then
    { s with table := s.table.signalAll, point := .failed (.timeout "orchestrator deadline exceeded") }
  else match s.rejoinSpawnAt with
    | none => { s with point := .receiving s.now }
    | some time =>
      if s.now ≥ time then
        let s := { s with rejoinSpawnAt := none }
        match specs.findIdx? (·.nodeAlias = Orchestrate.failTargetAlias args specs) with
        | none => { s with point := .panicked }
        | some idx =>
          match specs[idx]? with
          | none => { s with point := .panicked }
          | some spec =>
            if ok then s.launch (Orchestrate.spawnOne args spec specs idx true) (.receiving s.now)
            else { s with point := .failed (.spawn spec.nodeAlias) }
      else { s with point := .receiving s.now }

/-- Kill a child, at the round that was asked for, if it is the target and no child was killed yet. -/
def inject (args : OrchestrateArgs) (specs : List NodeSpec) (nodeAlias : Text) (round : UInt64) (s : Orchestration) : Orchestration :=
  match args.failAtRound, s.killedOnce with
  | some targetRound, false =>
    if nodeAlias = Orchestrate.failTargetAlias args specs ∧ round = targetRound then
      match s.table.roster[Orchestrate.failTargetAlias args specs]? with
      | none => s
      | some pid =>
        { s with
          table := s.table.signal pid, killedOnce := true, kills := s.kills ++ [(pid, s.now)]
          rejoinSpawnAt := match args.rejoinAfterMs with
            | some ms => some (s.now + ms.toNat)
            | none => s.rejoinSpawnAt }
    else s
  | _, _ => s

/-- Handle an event. -/
def handle (args : OrchestrateArgs) (specs : List NodeSpec) (e : Sent) (s : Orchestration) : Orchestration :=
  match e.event with
  | .roundCommitted nodeAlias round => { s.inject args specs nodeAlias round with point := .looping }
  | .childExited nodeAlias _ =>
    let table := s.table.strike [nodeAlias]
    { s with table, point := if table.roster.isEmpty then .returned else .looping }

/-- A step, where it is enabled. -/
def exec (args : OrchestrateArgs) (specs : List NodeSpec) (s : Orchestration) : OrchStep → Option Orchestration
  | .print pid line =>
    match s.table.jobs[pid]? with
    | some p =>
      if p.running then some { s with table := s.table.update pid (Child.print line) } else none
    | none => none
  | .finish pid => some { s with table := s.table.finish pid }
  | .read pid =>
    match s.point.runs, s.table.jobs[pid]? with
    | true, some p => p.data.printed[p.data.read]?.map (s.readLine pid p.data)
    | _, _ => none
  | .tick ms => some { s with now := s.now + ms }
  | .spawn ok =>
    match s.point with
    | .starting idx =>
      match specs[idx]? with
      | some spec =>
        if ok then some (s.launch (Orchestrate.spawnOne args spec specs idx false) (.starting (idx + 1)))
        else some { s with point := .failed (.spawn spec.nodeAlias) }
      | none => some { s with deadline := s.now + 180000, point := .looping }
    | _ => none
  | .iterate ok =>
    match s.point with
    | .looping => some (s.iterate args specs ok)
    | _ => none
  | .receive =>
    match s.point, s.channel with
    | .receiving _, e :: rest => some (({ s with channel := rest, observed := s.observed ++ [e] } : Orchestration).handle args specs e)
    | _, _ => none
  | .timeout =>
    match s.point, s.channel with
    | .receiving since, [] => if s.now ≥ since + 500 then some { s with point := .checking s.table.roster.keys [] } else none
    | _, _ => none
  | .tryWait =>
    match s.point with
    | .checking (a :: todo) toRemove =>
      match s.table.roster[a]?.bind (s.table.jobs[·]?) with
      | some p => some { s with point := .checking todo (if p.running then toRemove else toRemove ++ [a]) }
      | none => some { s with point := .checking todo toRemove }
    | .checking [] toRemove =>
      let table := s.table.strike toRemove
      some { s with table, point := if table.roster.isEmpty then .returned else .looping }
    | _ => none

end Orchestration

/-- The orchestrator and its children, as a machine. -/
def orchestrations (args : OrchestrateArgs) (specs : List NodeSpec) : Transition.Machine Orchestration OrchStep where
  start s := ∃ now, s = .initial now
  exec := Orchestration.exec args specs

end VertexVeil
