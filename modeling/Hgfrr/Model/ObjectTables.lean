import Hgfrr.Foundation.Arrange
import Hgfrr.Model.NodeObjects
import Hgfrr.Model.EvalTables

/-!
# Building tables of shared nodes

Both builders of tables once more, with the objects that they make. `BaseApp` makes an
object for every place at which it puts a node, by copying one that it keeps in a local
variable. `EvalClient` makes one object for a node and puts its pointer everywhere.
-/

namespace Hgfrr

/-- A pointer that is not null, and the node it points to. -/
structure SharedNode where
  node : Node
  ref : ℕ
deriving DecidableEq, Repr

namespace SharedNode

def id (shared : SharedNode) : Str := shared.node.id

/-- Insertion into a map from ids to pointers. -/
def insert (nodes : List SharedNode) (shared : SharedNode) : List SharedNode :=
  if shared.id ∈ nodes.map SharedNode.id then nodes else nodes ++ [shared]

/-- A map from ids to pointers in iteration order. -/
def iterate (order : MapOrder) (nodes : List SharedNode) : List SharedNode :=
  Arrange.arrange SharedNode.id order.order nodes

def entries (nodes : List SharedNode) : List (Str × Pointer) :=
  nodes.map fun shared => (shared.id, some shared.ref)

end SharedNode

/-- The variables of a builder that become a ring. -/
structure SharedRing where
  ringLevel : ℕ
  contactNodes : List SharedNode
  predecessor : Option SharedNode
  successor : Option SharedNode
  peerSet : List SharedNode
  peerList : List SharedNode
deriving DecidableEq, Repr

/-- The ring that they become. -/
def SharedRing.objects (ring : SharedRing) : RingObjects where
  ringLevel := ring.ringLevel
  contactNodes := SharedNode.entries ring.contactNodes
  predecessor := ring.predecessor.map SharedNode.ref
  successor := ring.successor.map SharedNode.ref
  peerSet := SharedNode.entries ring.peerSet
  peerList := ring.peerList.map fun shared => some shared.ref

/-- The places at which the loops of a builder put a node. -/
inductive Place
  | contactNodes
  | contactNodesList
  | neighbour
  | peerSet
  | peerList
deriving DecidableEq, Repr

def Place.number : Place → ℕ
  | contactNodes => 0
  | contactNodesList => 1
  | neighbour => 2
  | peerSet => 3
  | peerList => 4

/-- Make objects with the same contents at the next references. -/
def Store.make (store : Store) (count : ℕ) (object : NodeObject) : Store where
  size := store.size + count
  object ref := if store.size ≤ ref ∧ ref < store.size + count then object else store.object ref

/-- A builder of tables, which makes a copy for every place or one object for all, and reads
the clock twice for every node. -/
structure ObjectBuilder extends TableBuilder where
  copies : Bool
  readings : ℕ → ℤ × ℤ

namespace ObjectBuilder

variable (builder : ObjectBuilder)

/-- How many references a node takes up. -/
def objectsPerNode : ℕ := if builder.copies then 5 else 1

/-- The pointer that is put at a place, for a node made at its first reference. -/
def put (place : Place) (made : SharedNode) : SharedNode :=
  if builder.copies then { made with ref := made.ref + place.number } else made

/-- Make the objects of nodes, one after the other. -/
def makeNodes : Store → List Node → List SharedNode × Store
  | store, [] => ([], store)
  | store, node :: nodes =>
      let times := builder.readings store.size
      let (rest, after) :=
        makeNodes (store.make builder.objectsPerNode ⟨node, times.1, times.2⟩) nodes
      (⟨node, store.size⟩ :: rest, after)

/-- Whether the own id is among contact nodes. -/
def isAmongShared (contactNodes : List SharedNode) : Bool :=
  builder.selfId ∈ contactNodes.map SharedNode.id

/-- The ring of the own district, and the vector of its contact nodes. -/
def peerObjects (numNodesInDist numCnodesInDist : ℕ) (store : Store) :
    Except Fault (SharedRing × List SharedNode × Store) := do
  let idInDist ← substr builder.selfId idSingleStart idSingleLen
  let made ← (List.range numNodesInDist).mapM fun i => do
    let nodeIdUntilDist ← substr builder.selfId 0 idSingleStart
    let node ← builder.mkNode (nodeIdUntilDist ++ setw idSingleLen i)
    return node.map fun node => (i, node)
  let nodes := made.filterMap id
  let (objects, store) := builder.makeNodes store (nodes.map Prod.snd)
  let numbered := (nodes.map Prod.fst).zip objects
  let contacts := (numbered.filter fun entry => entry.1 < numCnodesInDist).map Prod.snd
  let found := neighbours (streamInt idInDist) numNodesInDist numbered
  return (
    { ringLevel := 0
      contactNodes := SharedNode.iterate builder.order
        ((contacts.map (builder.put .contactNodes)).foldl SharedNode.insert [])
      predecessor := found.1.map (builder.put .neighbour)
      successor := found.2.map (builder.put .neighbour)
      peerSet := SharedNode.iterate builder.order
        ((objects.map (builder.put .peerSet)).foldl SharedNode.insert [])
      peerList := objects.map (builder.put .peerList) },
    contacts.map (builder.put .contactNodesList), store)

/-- The ring of a contact level, and the map of the next contact nodes. -/
def contactObjects (ringLevel regions limit upTo width : ℕ) (suffix : Str → Except Fault Str)
    (contactNodesList contactNodesNext : List SharedNode) (store : Store) :
    Except Fault (SharedRing × List SharedNode × Store) := do
  let nodeIdUntil ← substr builder.selfId 0 upTo
  let made ← (List.range regions).mapM fun i =>
    contactNodesList.mapM fun contactNode => do
      let rest ← suffix contactNode.id
      builder.mkNode (nodeIdUntil ++ setw width i ++ rest)
  let (objects, store) := builder.makeNodes store (made.flatten.filterMap id)
  let contactNodesNext := ((objects.take limit).map (builder.put .contactNodes)).foldl
    SharedNode.insert contactNodesNext
  return (
    { ringLevel := ringLevel
      contactNodes := SharedNode.iterate builder.order contactNodesNext
      predecessor := none
      successor := none
      peerSet := SharedNode.iterate builder.order
        ((objects.map (builder.put .peerSet)).foldl SharedNode.insert [])
      peerList := objects.map (builder.put .peerList) }, contactNodesNext, store)

end ObjectBuilder

/-- A contact level with its objects, from the contact nodes of the level below. -/
abbrev ObjectLevel :=
  List SharedNode → List SharedNode → Store → Except Fault (SharedRing × List SharedNode × Store)

namespace BaseApp

variable (p : Topology) (startingPortNumber : ℕ) (order : MapOrder) (selfId : Str)
  (readings : ℕ → ℤ × ℤ)

/-- Every place gets a copy of its own. -/
def objectBuilder : ObjectBuilder where
  toTableBuilder := builder p startingPortNumber order selfId
  copies := true
  readings := readings

/-! The levels of contact nodes. -/

def distObjects : ObjectLevel :=
  (objectBuilder p startingPortNumber order selfId readings).contactObjects 1 p.numDistsInCity
    p.numCnodesInCity idDistrictStart idDistrictLen fun id => substr id idSingleStart idSingleLen

def cityObjects : ObjectLevel :=
  (objectBuilder p startingPortNumber order selfId readings).contactObjects 2 p.numCitiesInState
    p.numCnodesInState idCityStart idCityLen fun id => substrFrom id idDistrictStart

def stateObjects : ObjectLevel :=
  (objectBuilder p startingPortNumber order selfId readings).contactObjects 3 p.numStatesInCountry
    p.numCnodesInState idStateStart idStateLen fun id => substrFrom id idCityStart

def countryObjects : ObjectLevel :=
  (objectBuilder p startingPortNumber order selfId readings).contactObjects 4
    p.numCountriesInContinent p.numCnodesInCountry idCountryStart idCountryLen
    fun id => substrFrom id idStateStart

def continentObjects : ObjectLevel :=
  (objectBuilder p startingPortNumber order selfId readings).contactObjects 5 p.numContinents
    p.numCnodesInContinent idContinentStart idContinentLen fun id => substrFrom id idCountryStart

/-- One level after the other, as long as the own node is a contact node. -/
def climbObjects (levels : List ObjectLevel) (contactNodes : List SharedNode) (store : Store) :
    Except Fault (List SharedRing × Store) :=
  match levels with
  | [] => .ok ([], store)
  | level :: levels =>
      if (objectBuilder p startingPortNumber order selfId readings).isAmongShared contactNodes
      then do
        let (ring, next, store) ← level contactNodes [] store
        let (rings, store) ← climbObjects levels (SharedNode.iterate order next) store
        return (ring :: rings, store)
      else climbObjects levels contactNodes store

/-- The levels that are formed: a level without nodes ends the structure. -/
def objectLevelsInUse : List ObjectLevel :=
  if p.numNodesInCity = 0 then []
  else distObjects p startingPortNumber order selfId readings ::
    if p.numNodesInState = 0 then []
    else cityObjects p startingPortNumber order selfId readings ::
      if p.numNodesInCountry = 0 then []
      else stateObjects p startingPortNumber order selfId readings ::
        if p.numNodesInContinent = 0 then []
        else [countryObjects p startingPortNumber order selfId readings,
          continentObjects p startingPortNumber order selfId readings]

/-- `BaseApp::form_structure`: the tables of a node and the objects in them. -/
def formObjects (store : Store) : Except Fault (List SharedRing × Store) := do
  let (ring, contactNodesList, store) ←
    (objectBuilder p startingPortNumber order selfId readings).peerObjects p.numNodesInDist
      p.numCnodesInDist store
  let (rings, store) ← climbObjects p startingPortNumber order selfId readings
    (objectLevelsInUse p startingPortNumber order selfId readings) contactNodesList store
  return (ring :: rings, store)

end BaseApp

namespace EvalClient

/-- What the blocks of a client share, and the objects made so far. -/
structure ObjectState where
  tables : List SharedRing
  contactNodes : List SharedNode
  contactNodesNext : List SharedNode
  store : Store

/-- One object stands at all places of a node. -/
def objectBuilder (nodeList : NodeList) (order : MapOrder) (selfId : Str)
    (readings : ℕ → ℤ × ℤ) : ObjectBuilder where
  toTableBuilder := tableBuilder nodeList order selfId
  copies := false
  readings := readings

/-- The block of a contact level. -/
def objectBlock (builder : ObjectBuilder) (exchange : Bool) (level : ObjectLevel)
    (state : ObjectState) : Except Fault ObjectState :=
  if builder.isAmongShared state.contactNodes then do
    let (ring, next, store) ← level state.contactNodes state.contactNodesNext state.store
    if exchange then
      return ⟨state.tables ++ [ring], SharedNode.iterate builder.order next, [], store⟩
    else return ⟨state.tables ++ [ring], state.contactNodes, next, store⟩
  else return state

/-- `EvalClient::create_hgfr_table`: the tables of a client and the objects in them. -/
def createObjects (p : Topology) (nodeList : NodeList) (order : MapOrder) (selfId : Str)
    (readings : ℕ → ℤ × ℤ) (store : Store) : Except Fault (List SharedRing × Store) := do
  let builder := objectBuilder nodeList order selfId readings
  let (ring, contactNodes, store) ←
    builder.peerObjects p.numNodesInDist p.numCnodesInDist store
  let state ← objectBlock builder true (builder.contactObjects 1 p.numDistsInCity
    p.numCnodesInCity idDistrictStart idDistrictLen fun id => substr id idSingleStart idSingleLen)
    ⟨[ring], contactNodes, [], store⟩
  -- the cities are counted with the contact nodes of a district, and nothing is exchanged
  let state ← objectBlock builder false (builder.contactObjects 2
    (p.numNodesInState / p.numCnodesInDist) p.numCnodesInState idCityStart idCityLen
    fun id => substrFrom id idDistrictStart) state
  if p.numNodesInCountry = 0 then return (state.tables, state.store)
  else
    let state ← objectBlock builder true (builder.contactObjects 3 p.numStatesInCountry
      p.numCnodesInState idStateStart idStateLen fun id => substrFrom id idCityStart) state
    if p.numNodesInContinent = 0 then return (state.tables, state.store)
    else
      let state ← objectBlock builder true (builder.contactObjects 4 p.numCountriesInContinent
        p.numCnodesInCountry idCountryStart idCountryLen fun id => substrFrom id idStateStart)
        state
      let state ← objectBlock builder false (builder.contactObjects 5 p.numContinents
        p.numCnodesInContinent idContinentStart idContinentLen
        fun id => substrFrom id idCountryStart) state
      return (state.tables, state.store)

end EvalClient

end Hgfrr
