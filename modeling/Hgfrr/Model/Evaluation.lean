import Hgfrr.Foundation.AssocMap
import Hgfrr.Model.NodeTable
import Hgfrr.Model.Utils

/-!
# The evaluation server and its clients

The server keeps a database of registered nodes. To prepare an experiment it
sends every node a configuration, then the table of all nodes in pages. A client
collects the pages, and builds its node table and its peer manager when the last
page comes in. Serialization is left out: messages arrive as they were sent.
-/

namespace Hgfrr

inductive EvalType
  | hgfrr
  | kademlia
deriving DecidableEq, Repr

/-- The configuration of an experiment. -/
structure EvalConfig where
  runId : Str
  evalType : EvalType
  topology : Topology
deriving DecidableEq, Repr

/-- A page of the table. The three repeated fields stand side by side: the id, the
address and the port of each entry. -/
structure TablePage where
  tableSize : ℕ
  entries : List (ℕ × Str × ℕ)
  isEnd : Bool
deriving DecidableEq, Repr

/-- The messages that prepare an experiment. -/
inductive BootstrapMessage
  | config (nodeId : ℕ) (config : EvalConfig)
  | table (page : TablePage)
deriving DecidableEq, Repr

/-- A message on its way to an address. -/
structure Mailing where
  ip : Str
  port : ℕ
  msg : BootstrapMessage
deriving DecidableEq, Repr

/-! ## The server -/

structure NodeRecord where
  ip : Str
  bootstrapPort : ℕ
  broadcastPort : ℕ
deriving DecidableEq, Repr

/-- The registered nodes, in iteration order. -/
abbrev NodeDatabase := List (ℕ × NodeRecord)

namespace EvalServer

def tablePageSize : ℕ := 2000

/-- `EvalServer::handle_config` -/
def handleConfig (config : EvalConfig) (db : NodeDatabase) : List Mailing :=
  db.map fun entry => ⟨entry.2.ip, entry.2.bootstrapPort, .config entry.1 config⟩

/-- The pages of the table: `i` entries have been added before, the last of them to
a page that has not been sent. -/
def tablePages (size : ℕ) : (i : ℕ) → (page : List (ℕ × Str × ℕ)) → NodeDatabase →
    List TablePage
  | _, _, [] => []
  | i, page, entry :: db =>
      let page := page ++ [(entry.1, entry.2.ip, entry.2.broadcastPort)]
      let i := i + 1
      if i % tablePageSize = 0 ∨ i = size then
        { tableSize := if i > tablePageSize then
            if i % tablePageSize = 0 then tablePageSize else i % tablePageSize else i
          entries := page
          isEnd := i ≥ size } :: tablePages size i [] db
      else tablePages size i page db

/-- `EvalServer::handle_table` -/
def handleTable (db : NodeDatabase) : List Mailing :=
  (tablePages db.length 0 [] db).flatMap fun page =>
    db.map fun entry => ⟨entry.2.ip, entry.2.bootstrapPort, .table page⟩

end EvalServer

/-! ## The client -/

/-- Addresses and ports of nodes by their ids. -/
abbrev NodeList := List (Str × Str × ℕ)

/-- What a node table and a peer manager are built from. -/
structure Evaluation where
  self : Option Node
  strNodeId : Str
  config : EvalConfig
  nodeList : NodeList
deriving DecidableEq, Repr

/-- A client: its configuration with its own id, the nodes it has read so far, and
the peer managers of both protocols. -/
structure EvalClient where
  localBroadcastPort : ℕ
  evalConfig : Option (Str × EvalConfig)
  nodeList : Option NodeList
  self : Option Node
  peerManager : Option Evaluation
  peerManagerEth : Option Evaluation
deriving DecidableEq, Repr

namespace EvalClient

variable (client : EvalClient)

/-- A configuration drops the peer manager of the one before and the own node, but
not the nodes that have been read. -/
def receiveConfig (nodeId : ℕ) (config : EvalConfig) : EvalClient :=
  let client := match client.evalConfig with
    | none => client
    | some (_, previous) => match previous.evalType with
      | .kademlia => { client with peerManagerEth := none, self := none }
      | .hgfrr => { client with peerManager := none, self := none }
  let strNodeId := convertIDIntToString nodeId config.topology
  { client with
    evalConfig := some (strNodeId, config)
    self := some ⟨strNodeId, "127.0.0.1".toList, client.localBroadcastPort⟩ }

/-- Read `table_size` entries into the node list. Reading past the entries of a
page is undefined. -/
def readEntries (topology : Topology) (page : TablePage) (nodeList : NodeList) :
    Except Fault NodeList :=
  if page.entries.length < page.tableSize then .error .undefinedBehaviour
  else .ok ((page.entries.take page.tableSize).foldl (fun nodeList entry =>
    AssocMap.assign (convertIDIntToString entry.1 topology) entry.2 nodeList) nodeList)

/-- A page of the table, and what is built when it is the last one. -/
def receiveTable (page : TablePage) : Except Fault (EvalClient × Option Evaluation) :=
  match client.evalConfig with
  | none => .ok (client, none)
  | some (strNodeId, config) => do
      let nodeList ← readEntries config.topology page (client.nodeList.getD [])
      let client := { client with nodeList := some nodeList }
      if page.isEnd then
        let evaluation := ⟨client.self, strNodeId, config, nodeList⟩
        match config.evalType with
        | .kademlia => return ({ client with peerManagerEth := some evaluation }, some evaluation)
        | .hgfrr => return ({ client with peerManager := some evaluation }, some evaluation)
      else return (client, none)

/-- `EvalClient::receive`, for the messages that prepare an experiment. -/
def receive : BootstrapMessage → Except Fault (EvalClient × Option Evaluation)
  | .config nodeId config => .ok (client.receiveConfig nodeId config, none)
  | .table page => client.receiveTable page

end EvalClient

/-! ## Every message of the bootstrap server -/

/-- The fields of a configuration as they come in. Any number may be zero. -/
structure ConfigFields where
  nodeId : ℕ
  runId : Str
  evalType : EvalType
  numNodesInDist : ℕ
  numCnodesInDist : ℕ
  numNodesInCity : ℕ
  numCnodesInCity : ℕ
  numNodesInState : ℕ
  numCnodesInState : ℕ
  numNodesInCountry : ℕ
  numCnodesInCountry : ℕ
  numNodesInContinent : ℕ
  numContinents : ℕ
  numCnodesInContinent : ℕ
deriving DecidableEq, Repr

/-- The parameters, unless one of the numbers that the conversion of ids divides by is
zero. -/
def ConfigFields.topology? (fields : ConfigFields) : Option Topology :=
  if h : 0 < fields.numNodesInDist ∧ 0 < fields.numCnodesInDist ∧ 0 < fields.numCnodesInCity ∧
      0 < fields.numCnodesInState ∧ 0 < fields.numCnodesInCountry then
    some {
      numNodesInDist := fields.numNodesInDist
      numCnodesInDist := fields.numCnodesInDist
      numNodesInCity := fields.numNodesInCity
      numCnodesInCity := fields.numCnodesInCity
      numNodesInState := fields.numNodesInState
      numCnodesInState := fields.numCnodesInState
      numNodesInCountry := fields.numNodesInCountry
      numCnodesInCountry := fields.numCnodesInCountry
      numNodesInContinent := fields.numNodesInContinent
      numContinents := fields.numContinents
      numCnodesInContinent := fields.numCnodesInContinent
      dist_pos := h.2.1
      city_pos := h.2.2.1
      state_pos := h.2.2.2.1
      country_pos := h.2.2.2.2 }
  else none

inductive ClientMessage
  | config (fields : ConfigFields)
  | table (page : TablePage)
  | broadcast (workloadSize : ℕ)
  | pullLog
  | unknown
deriving DecidableEq, Repr

/-- How the handling of a message ends the client: at a null pointer, or otherwise. -/
inductive ClientFault
  | nullPointer
  | other (fault : Fault)
deriving DecidableEq, Repr

/-- What the client asks of a peer manager. -/
inductive ManagerCall
  | start
  | broadcast (data : Str)
  | records
deriving DecidableEq, Repr

/-- A call of a peer manager: of which protocol, and what it was built from. -/
structure ManagerUse where
  evalType : EvalType
  evaluation : Evaluation
  call : ManagerCall
deriving DecidableEq, Repr

/-- Dereferencing a pointer. -/
def deref {α : Type} : Option α → Except ClientFault α
  | some a => .ok a
  | none => .error .nullPointer

namespace EvalClient

/-- A client that has just been started. -/
def fresh (localBroadcastPort : ℕ) : EvalClient :=
  ⟨localBroadcastPort, none, none, none, none, none⟩

variable (client : EvalClient)

/-- `std::string(workload_size, 'S')` -/
def generateRandomWorkload (workloadSize : ℕ) : Str := List.replicate workloadSize 'S'

/-- Conversion of the own id divides by the size of a district and the contact counts. -/
def handleConfig (fields : ConfigFields) : Except ClientFault (EvalClient × List ManagerUse) :=
  match fields.topology? with
  | none => .error (.other .undefinedBehaviour)
  | some topology =>
      .ok (client.receiveConfig fields.nodeId ⟨fields.runId, fields.evalType, topology⟩, [])

/-- Both table builders read the id of the own node. The peer manager is started when
it has been built. -/
def handleTable (page : TablePage) : Except ClientFault (EvalClient × List ManagerUse) :=
  match client.receiveTable page with
  | .error fault => .error (.other fault)
  | .ok (client, none) => .ok (client, [])
  | .ok (client, some evaluation) => do
      let _ ← deref evaluation.self
      return (client, [⟨evaluation.config.evalType, evaluation, .start⟩])

/-- The guard asks for any peer manager, the call then goes by the configuration. -/
def handleBroadcast (workloadSize : ℕ) : Except ClientFault (EvalClient × List ManagerUse) :=
  if client.peerManager = none ∧ client.peerManagerEth = none then .ok (client, [])
  else do
    let (_, config) ← deref client.evalConfig
    let workload := generateRandomWorkload workloadSize
    match config.evalType with
    | .kademlia =>
        let evaluation ← deref client.peerManagerEth
        return (client, [⟨.kademlia, evaluation, .broadcast workload⟩])
    | .hgfrr =>
        let evaluation ← deref client.peerManager
        return (client, [⟨.hgfrr, evaluation, .broadcast workload⟩])

/-- `EvalClient::send_push_log` has no guard. -/
def sendPushLog : Except ClientFault (EvalClient × List ManagerUse) := do
  let (_, config) ← deref client.evalConfig
  match config.evalType with
  | .kademlia =>
      let evaluation ← deref client.peerManagerEth
      let _ ← deref client.self
      return (client, [⟨.kademlia, evaluation, .records⟩])
  | .hgfrr =>
      let evaluation ← deref client.peerManager
      let _ ← deref client.self
      return (client, [⟨.hgfrr, evaluation, .records⟩])

/-- `EvalClient::receive`, for messages that can be parsed. -/
def handle : ClientMessage → Except ClientFault (EvalClient × List ManagerUse)
  | .config fields => client.handleConfig fields
  | .table page => client.handleTable page
  | .broadcast workloadSize => client.handleBroadcast workloadSize
  | .pullLog => client.sendPushLog
  | .unknown => .ok (client, [])

/-- A client that receives messages one after the other. -/
def run (client : EvalClient) : List ClientMessage → Except ClientFault EvalClient
  | [] => .ok client
  | msg :: messages => do
      let (client, _) ← client.handle msg
      run client messages

end EvalClient

end Hgfrr
