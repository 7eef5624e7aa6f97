import Hgfrr.Model.NodeTable
import Hgfrr.Model.Utils

/-!
# Forming the structure

Every node computes its rings from its own id and the parameters of the topology.
The ring of a level is made from the contact nodes of the level below, moved to
every region in turn. From the second contact level on, the contact nodes come
out of a map, in an order that the language leaves open.
-/

namespace Hgfrr

/-- An iteration order of `std::unordered_map`: the keys of a map, in the order in
which they were inserted, and the order in which they come out. -/
structure MapOrder where
  order : List Str → List Str
  perm : ∀ keys, (order keys).Perm keys

/-- The order depends on which keys there are only. -/
def MapOrder.KeyDetermined (order : MapOrder) : Prop :=
  ∀ keys keys', keys.Perm keys' → order.order keys = order.order keys'

/-- Maps that keep the order of insertion. -/
def insertionOrder : MapOrder := ⟨id, fun _ => .refl _⟩

/-- The nodes of a map in iteration order. -/
def MapOrder.iterate (order : MapOrder) (nodes : List Node) : List Node :=
  (order.order (nodes.map Node.id)).filterMap fun key => nodes.find? fun node => node.id = key

/-- Insertion of a node into a map from ids to nodes. -/
def insertNode (nodes : List Node) (node : Node) : List Node :=
  if node.id ∈ nodes.map Node.id then nodes else nodes ++ [node]

/-- A map from ids to nodes, as a list of entries. -/
def nodeEntries (nodes : List Node) : List (Str × Node) := nodes.map fun node => (node.id, node)

/-- The nodes next to position `nodeIdInDist` in a ring of `numNodesInDist` nodes, as
the loop over all of them leaves them: first the predecessor, then the successor. The
loop only looks at the positions. -/
def neighbours {α : Type} (nodeIdInDist : ℤ) (numNodesInDist : ℕ) (nodes : List (ℕ × α)) :
    Option α × Option α :=
  nodes.foldl (fun (found : Option α × Option α) entry =>
    let i : ℤ := entry.1
    if nodeIdInDist = 0 ∧ i = numNodesInDist - 1 then (some entry.2, found.2)
    else if nodeIdInDist = numNodesInDist - 1 ∧ i = 0 then (found.1, some entry.2)
    else if i = nodeIdInDist + 1 then (found.1, some entry.2)
    else if i = nodeIdInDist - 1 then (some entry.2, found.2)
    else found) (none, none)

/-- What the blocks of a table builder share: the own id, how a node is made of an
id, if it is known, and the order of maps. -/
structure TableBuilder where
  selfId : Str
  mkNode : Str → Except Fault (Option Node)
  order : MapOrder

namespace TableBuilder

variable (builder : TableBuilder)

/-- The ring of the own district. -/
def peerLevel (numNodesInDist numCnodesInDist : ℕ) : Except Fault (Ring × List Node) := do
  let idInDist ← substr builder.selfId idSingleStart idSingleLen
  let made ← (List.range numNodesInDist).mapM fun i => do
    let nodeIdUntilDist ← substr builder.selfId 0 idSingleStart
    let node ← builder.mkNode (nodeIdUntilDist ++ setw idSingleLen i)
    return node.map fun node => (i, node)
  let nodes := made.filterMap id
  let contactNodes := (nodes.filter fun entry => entry.1 < numCnodesInDist).map Prod.snd
  let found := neighbours (streamInt idInDist) numNodesInDist nodes
  let peerList := nodes.map Prod.snd
  return (
    { ringLevel := 0
      contactNodes := nodeEntries (builder.order.iterate (contactNodes.foldl insertNode []))
      predecessor := found.1
      successor := found.2
      peerSet := nodeEntries (builder.order.iterate (peerList.foldl insertNode []))
      peerList := peerList }, contactNodes)

/-- The ring of a contact level. Its peers are the contact nodes of the level below,
in the order of their vector and for every region of the level: the own id up to
the level, the number of the region, and the rest of the contact node's id. The
first `limit` of them go into the map of contact nodes, which may hold others
already. -/
def contactLevel (ringLevel regions limit upTo width : ℕ) (suffix : Str → Except Fault Str)
    (contactNodesList contactNodesNext : List Node) : Except Fault (Ring × List Node) := do
  let nodeIdUntil ← substr builder.selfId 0 upTo
  let made ← (List.range regions).mapM fun i =>
    contactNodesList.mapM fun contactNode => do
      let rest ← suffix contactNode.id
      builder.mkNode (nodeIdUntil ++ setw width i ++ rest)
  let peerList := made.flatten.filterMap id
  let contactNodesNext := (peerList.take limit).foldl insertNode contactNodesNext
  return (
    { ringLevel := ringLevel
      contactNodes := nodeEntries (builder.order.iterate contactNodesNext)
      predecessor := none
      successor := none
      peerSet := nodeEntries (builder.order.iterate (peerList.foldl insertNode []))
      peerList := peerList }, contactNodesNext)

/-- Whether the own id is among contact nodes. -/
def isAmong (contactNodes : List Node) : Bool := builder.selfId ∈ contactNodes.map Node.id

end TableBuilder

namespace BaseApp

variable (p : Topology) (startingPortNumber : ℕ) (order : MapOrder) (selfId : Str)

/-- All nodes run on the local host, at ports that follow from their numbers. -/
def builder : TableBuilder where
  selfId := selfId
  mkNode nodeId := (portOf startingPortNumber nodeId p).map fun port =>
    some ⟨nodeId, "127.0.0.1".toList, port⟩
  order := order

/-! The levels of contact nodes. -/

def distLevel (list : List Node) : Except Fault (Ring × List Node) :=
  (builder p startingPortNumber order selfId).contactLevel 1 p.numDistsInCity p.numCnodesInCity
    idDistrictStart idDistrictLen (fun id => substr id idSingleStart idSingleLen) list []

def cityLevel (list : List Node) : Except Fault (Ring × List Node) :=
  (builder p startingPortNumber order selfId).contactLevel 2 p.numCitiesInState p.numCnodesInState
    idCityStart idCityLen (fun id => substrFrom id idDistrictStart) list []

/-- The bound on the contact nodes is that of the level below. -/
def stateLevel (list : List Node) : Except Fault (Ring × List Node) :=
  (builder p startingPortNumber order selfId).contactLevel 3 p.numStatesInCountry p.numCnodesInState
    idStateStart idStateLen (fun id => substrFrom id idCityStart) list []

def countryLevel (list : List Node) : Except Fault (Ring × List Node) :=
  (builder p startingPortNumber order selfId).contactLevel 4 p.numCountriesInContinent
    p.numCnodesInCountry idCountryStart idCountryLen (fun id => substrFrom id idStateStart) list []

/-- The own id does not matter at the highest level. -/
def continentLevel (list : List Node) : Except Fault (Ring × List Node) :=
  (builder p startingPortNumber order selfId).contactLevel 5 p.numContinents
    p.numCnodesInContinent idContinentStart idContinentLen
    (fun id => substrFrom id idCountryStart) list []

/-- One level after the other, as long as the own node is a contact node. Iterating
over the map of contact nodes gives both the next map and the next vector. -/
def climb (levels : List (List Node → Except Fault (Ring × List Node))) (contactNodes : List Node) :
    Except Fault (List Ring) :=
  match levels with
  | [] => .ok []
  | level :: levels =>
      if (builder p startingPortNumber order selfId).isAmong contactNodes then do
        let (ring, next) ← level contactNodes
        let rings ← climb levels (order.iterate next)
        return ring :: rings
      else climb levels contactNodes

/-- The levels that are formed: a level without nodes ends the structure. -/
def levelsInUse : List (List Node → Except Fault (Ring × List Node)) :=
  if p.numNodesInCity = 0 then []
  else distLevel p startingPortNumber order selfId ::
    if p.numNodesInState = 0 then []
    else cityLevel p startingPortNumber order selfId ::
      if p.numNodesInCountry = 0 then []
      else stateLevel p startingPortNumber order selfId ::
        if p.numNodesInContinent = 0 then []
        else [countryLevel p startingPortNumber order selfId,
          continentLevel p startingPortNumber order selfId]

/-- `BaseApp::form_structure`: the tables of a node. -/
def formStructure : Except Fault (List Ring) := do
  let (ring, contactNodesList) ←
    (builder p startingPortNumber order selfId).peerLevel p.numNodesInDist p.numCnodesInDist
  let rings ← climb p startingPortNumber order selfId
    (levelsInUse p startingPortNumber order selfId) contactNodesList
  return ring :: rings

end BaseApp

end Hgfrr
