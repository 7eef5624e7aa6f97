import Hgfrr.Foundation.AssocMap
import Hgfrr.Foundation.Effects
import Hgfrr.Model.Kademlia

/-!
# The node discovery protocol

A local node with its routing table and what it waits for. Whatever comes from
outside is numbered: the clock, the random numbers and the echoes of the pings are
functions of the number of answers that were taken before. What the wire is told
to send is recorded.
-/

namespace Hgfrr.Kademlia

open SortedBy Effects

/-- Timeout of message round trips in milliseconds. -/
def kRequestTimeout : ℕ := 3 * 300

/-- Parallel lookups. -/
def kFindConcurrency : ℕ := 3

/-- The answers from outside: `time.time()` in milliseconds, `random.randint` and
what `send_ping` returns. -/
structure World where
  time : ℕ → ℕ
  randint : ℕ → ℕ → ℕ → ℕ
  echo : ℕ → Bytes

/-- A call of the wire. -/
inductive Sent
  | ping (node : Node) (echo : Bytes)
  | pong (node : Node) (echo : Bytes)
  | findNode (node : Node) (targetid : ℕ)
  | neighbours (node : Node) (nodes : List Node)
deriving DecidableEq

/-- A value of `_expected_pongs`. -/
structure ExpectedPong where
  timeout : ℕ
  node : Node
  replacement : Option Node
deriving DecidableEq

structure KademliaProtocol where
  routing : RoutingTable
  expectedPongs : List (Bytes × ExpectedPong)
  findRequests : List (ℕ × ℕ)
  sent : List Sent
  answers : ℕ
deriving DecidableEq

namespace KademliaProtocol

abbrev Action := Effect Error KademliaProtocol

def thisNode (s : KademliaProtocol) : Node := s.routing.thisNode

variable [Sha3] (world : World)

/-- The constructor. -/
def new (node : Node) : KademliaProtocol := ⟨.new node (world.time 0), [], [], [], 1⟩

/-! ## Outside -/

def answer {α : Type} (f : ℕ → α) : Action α := do
  let s ← get
  modify fun s => { s with answers := s.answers + 1 }
  return f s.answers

def send (message : Sent) : Action Unit :=
  modify fun s => { s with sent := s.sent ++ [message] }

def sendPing (node : Node) : Action Bytes := do
  let echo ← answer world.echo
  send (.ping node echo)
  return echo

/-! ## Requests -/

def mkpingid (echoed : Bytes) (node : Node) : Bytes := echoed ++ node.pubkey

def ping (node : Node) (replacement : Option Node) : Action Unit := do
  if node = (← get).thisNode then throw .pingsThisNode
  let echoed ← sendPing world node
  let time ← answer world.time
  let expected : ExpectedPong := ⟨time + kRequestTimeout, node, replacement⟩
  modify fun s =>
    { s with expectedPongs := AssocMap.assign (mkpingid echoed node) expected s.expectedPongs }

def queryNeighbours (targetid : ℕ) : Action Unit := do
  let s ← get
  forM ((s.routing.neighbours targetid kBucketSize).take kFindConcurrency) fun n =>
    send (.findNode n targetid)

def findNode (targetid : ℕ) (viaNode : Option Node) : Action Unit := do
  let time ← answer world.time
  modify fun s =>
    { s with findRequests := AssocMap.assign targetid (time + kRequestTimeout) s.findRequests }
  match viaNode with
  | some node => send (.findNode node targetid)
  | none => queryNeighbours targetid

/-! ## The table -/

def onRouting {α : Type} (call : RoutingTable → Except Error α × RoutingTable) : Action α :=
  onPart routing (fun t s => { s with routing := t }) call

def addNode (node : Node) : Action (Option Node) := do
  let time ← answer world.time
  onRouting (RoutingTable.addNode node time (kIdSize + 1))

def removeNode (node : Node) : Action Unit := onRouting (·.removeNode node)

def addReplacement (node : Node) : Action Unit := onRouting (·.addReplacement node)

/-! ## Update -/

def forget (pingid : Bytes) : Action Unit :=
  modify fun s => { s with expectedPongs := s.expectedPongs.filter fun entry => entry.1 ≠ pingid }

/-- Remove the nodes whose pings timed out, up to the first that has a
replacement, which `update` is called with, or is the node of the message. Whether
the loop came to its end. -/
def expirePongs (update : Node → Action Unit) (node : Node) :
    List (Bytes × ExpectedPong) → Action Bool
  | [] => return true
  | (pingid, expected) :: rest => do
      if (← answer world.time) > expected.timeout then
        forget pingid
        removeNode expected.node
        match expected.replacement with
        | some replacement => do
            update replacement
            return false
        | none => if expected.node = node then return false else expirePongs update node rest
      else expirePongs update node rest

/-- An expected pong, whose replacement goes to the cache. -/
def acceptPong (pingid : Bytes) : Action Unit := do
  let s ← get
  match s.expectedPongs.lookup pingid with
  | none => return
  | some expected =>
      forM expected.replacement.toList addReplacement
      forget pingid

/-- Add a node, or ping the head of its bucket. -/
def addOrPing (node : Node) : Action Unit := do
  match ← addNode world node with
  | some candidate => ping world candidate (some node)
  | none => return

def pingReplacements : Action Unit := do
  let s ← get
  forM s.routing.notFullBuckets fun b => forM b.replacementCache fun node => ping world node none

def refreshIdleBuckets : Action Unit := do
  let time ← answer world.time
  let s ← get
  forM (s.routing.idleBuckets time) fun b => do
    let rid ← answer fun i => world.randint i b.start b.stop
    findNode world rid none

/-- The requests that have not timed out. -/
def liveRequests : List (ℕ × ℕ) → Action (List (ℕ × ℕ))
  | [] => return []
  | (nodeid, timeout) :: rest => do
      let time ← answer world.time
      let live ← liveRequests rest
      return if time ≤ timeout then (nodeid, timeout) :: live else live

def pruneRequests : Action Unit := do
  let s ← get
  let live ← liveRequests world s.findRequests
  modify fun s => { s with findRequests := live }

/-- `update` with a bound on the recursion. -/
def updateWithin : ℕ → Node → Option Bytes → Action Unit
  | 0, _, _ => throw .recursionError
  | fuel + 1, node, pingid => do
      let s ← get
      if node = s.thisNode then return
      if ∃ id ∈ pingid, id ∉ s.expectedPongs.map Prod.fst then return
      if ← expirePongs world (fun replacement => updateWithin fuel replacement none) node
          s.expectedPongs then
        forM pingid.toList acceptPong
        addOrPing world node
        pingReplacements world
        refreshIdleBuckets world
        pruneRequests world

/-- Every call of itself is for one expected pong less. -/
def update (node : Node) (pingid : Option Bytes) : Action Unit := do
  let s ← get
  updateWithin world (s.expectedPongs.length + 1) node pingid

/-! ## Messages -/

def bootstrap (nodes : List Node) : Action Unit := do
  let s ← get
  forM nodes fun node =>
    if node = s.thisNode then return
    else do
      let _ ← addNode world node
      findNode world s.thisNode.id (some node)

def recvPing (remote : Node) (echo : Bytes) : Action Unit := do
  let s ← get
  if remote = s.thisNode then return
  update world remote none
  send (.pong remote echo)

def recvPong (remote : Node) (echoed : Bytes) : Action Unit := do
  let s ← get
  if remote = s.thisNode then throw .pongFromThisNode
  update world remote (some (mkpingid echoed remote))

/-- The nodes that are not in the table. -/
def unknownNodes (t : RoutingTable) : List Node → Except Error (List Node)
  | [] => .ok []
  | n :: rest => do
      let known ← t.contains n
      let unknown ← unknownNodes t rest
      return if known then unknown else n :: unknown

/-- Forward a request to the nearest of the nodes, if they are nearer than all
that are known. -/
def forwardRequest (neighbours : List Node) (request : ℕ × ℕ) : Action Unit := do
  let (nodeid, timeout) := request
  let time ← answer world.time
  if time < timeout then
    let s ← get
    let closestKnown := (s.routing.neighbours nodeid kBucketSize).head?
    if closestKnown = some s.thisNode then throw .knowsThisNode
    forM ((sortBy (Node.idDistance nodeid) neighbours).take kFindConcurrency) fun closeNode =>
      if ∀ known ∈ closestKnown, closeNode.idDistance nodeid < known.idDistance nodeid then
        send (.findNode closeNode nodeid)
      else return

def recvNeighbours (neighbours : List Node) : Action Unit := do
  let s ← get
  let others := neighbours.filter fun n => n ≠ s.thisNode
  let unknown ← Effects.ofExcept (unknownNodes s.routing others)
  forM s.findRequests (forwardRequest world unknown)
  forM unknown fun node => if node ≠ s.thisNode then ping world node none else return

def recvFindNode (remote : Node) (targetid : ℕ) : Action Unit := do
  update world remote none
  let s ← get
  send (.neighbours remote (s.routing.neighbours targetid kBucketSize))

/-! ## Runs -/

/-- What happens to the protocol: a message comes in, or the application starts it
or looks for a node. -/
inductive Event
  | bootstrap (nodes : List Node)
  | ping (node : Node)
  | findNode (targetid : ℕ)
  | recvPing (remote : Node) (echo : Bytes)
  | recvPong (remote : Node) (echoed : Bytes)
  | recvNeighbours (remote : Node) (neighbours : List Node)
  | recvFindNode (remote : Node) (targetid : ℕ)

def handle : Event → Action Unit
  | .bootstrap nodes => bootstrap world nodes
  | .ping node => ping world node none
  | .findNode targetid => findNode world targetid none
  | .recvPing remote echo => recvPing world remote echo
  | .recvPong remote echoed => recvPong world remote echoed
  | .recvNeighbours _ neighbours => recvNeighbours world neighbours
  | .recvFindNode remote targetid => recvFindNode world remote targetid

/-- After an exception the protocol goes on from where it was raised. -/
def step (s : KademliaProtocol) (event : Event) : KademliaProtocol :=
  (outcome (handle world event) s).2

def run (node : Node) (events : List Event) : KademliaProtocol :=
  events.foldl (step world) (new world node)

end KademliaProtocol

end Hgfrr.Kademlia
