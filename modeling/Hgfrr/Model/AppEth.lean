import Hgfrr.Model.Evaluation
import Hgfrr.Model.PeerManagerEth

/-!
# Forming the routing table

For gossip a node draws the numbers of its neighbours. It then goes through the ids of
all nodes, converts each to a number, and keeps the nodes whose numbers were drawn.
The successor goes to the front of the table.
-/

namespace Hgfrr

namespace Topology

variable (p : Topology)

/-- `num_nodes_total` -/
def numNodesTotal : ℕ :=
  p.numContinents * atLeastOne p.numCountriesInContinent * atLeastOne p.numStatesInCountry *
    atLeastOne p.numCitiesInState * atLeastOne p.numDistsInCity * p.numNodesInDist

/-- The ids of all nodes, in the order of the nested loops. -/
def allIds : List Str :=
  (List.range p.numContinents).flatMap fun continentCounter =>
    (List.range (atLeastOne p.numCountriesInContinent)).flatMap fun countryCounter =>
      (List.range (atLeastOne p.numStatesInCountry)).flatMap fun stateCounter =>
        (List.range (atLeastOne p.numCitiesInState)).flatMap fun cityCounter =>
          (List.range (atLeastOne p.numDistsInCity)).flatMap fun districtCounter =>
            (List.range p.numNodesInDist).map fun i =>
              setw idContinentLen continentCounter ++ (setw idCountryLen countryCounter ++
                (setw idStateLen stateCounter ++ (setw idCityLen cityCounter ++
                  (setw idDistrictLen districtCounter ++ setw idSingleLen i))))

end Topology

/-- Draw numbers of nodes until enough of them are new, and not the own number. -/
def drawNeighbours (numNodesTotal : ℕ) (selfOrder : ℤ) :
    (draws : List ℕ) → (missing : ℕ) → (neighborIds : List ℤ) → Except Fault (List ℤ)
  | _, 0, neighborIds => .ok neighborIds
  | [], _ + 1, _ => .error .nonTermination
  | rand :: draws, missing + 1, neighborIds =>
      let id : ℤ := (rand % numNodesTotal : ℕ)
      if id ∉ neighborIds ∧ id ≠ selfOrder then
        drawNeighbours numNodesTotal selfOrder draws missing (neighborIds ++ [id])
      else drawNeighbours numNodesTotal selfOrder draws (missing + 1) neighborIds

/-- What the builders of a routing table share: the own id, and how a node is made of
an id and its number, if it is known. -/
structure RoutingBuilder where
  selfId : Str
  mkNode : Str → ℤ → Option Node

namespace RoutingBuilder

variable (builder : RoutingBuilder) (p : Topology)

/-- One round of the innermost loop. -/
def addNeighbour (selfOrder : ℤ) (neighborIds : List ℤ) (table : List Node) (nodeId : Str) :
    Except Fault (List Node) := do
  let order ← convertIDStringToInt nodeId p
  if order ∈ neighborIds ∧ nodeId ≠ builder.selfId then
    match builder.mkNode nodeId order with
    | none => return table
    | some node => if order = selfOrder + 1 then return node :: table else return table ++ [node]
  else return table

/-- The numbers of the neighbours: the successor, and those drawn. -/
def neighborIds (draws : List ℕ) (selfOrder : ℤ) : Except Fault (List ℤ) :=
  if p.numNodesTotal = 0 then .error .undefinedBehaviour
  else drawNeighbours p.numNodesTotal selfOrder draws tableSizeEth
    [Int.tmod (selfOrder + 1) p.numNodesTotal]

def routingTable (draws : List ℕ) : Except Fault (List Node) := do
  let selfOrder ← convertIDStringToInt builder.selfId p
  let neighborIds ← neighborIds p draws selfOrder
  p.allIds.foldlM (builder.addNeighbour p selfOrder neighborIds) []

end RoutingBuilder

/-- `BaseAppETH::form_structure`: all nodes run on the local host, at ports that follow
from their numbers. -/
def BaseAppETH.formStructure (p : Topology) (startingPortNumber : ℕ) (draws : List ℕ)
    (selfId : Str) : Except Fault (List Node) :=
  let builder : RoutingBuilder := {
    selfId := selfId
    mkNode := fun nodeId order =>
      some ⟨nodeId, "127.0.0.1".toList, ((startingPortNumber + order) % 2 ^ 16).toNat⟩ }
  builder.routingTable p draws

/-- `EvalClient::create_kad_table`: addresses are looked up, and nodes without one are
left out. -/
def EvalClient.createKadTable (p : Topology) (nodeList : NodeList) (draws : List ℕ)
    (selfId : Str) : Except Fault (List Node) :=
  let builder : RoutingBuilder := {
    selfId := selfId
    mkNode := fun nodeId _ => (nodeList.lookup nodeId).map fun address =>
      ⟨nodeId, address.1, address.2⟩ }
  builder.routingTable p draws

end Hgfrr
