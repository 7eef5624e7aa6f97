import Hgfrr.Model.App
import Hgfrr.Model.Evaluation

/-!
# The tables of an evaluation client

A client forms its tables like any node, but it looks addresses up in the list that it
was sent, and leaves out ids that are not in it. One block follows the other over the
same variables, and only some of them hand the next contact nodes on.
-/

namespace Hgfrr.EvalClient

/-- What the blocks share: the tables so far, the contact nodes of the last ring, and the
map of the next. -/
structure TableState where
  tables : List Ring
  contactNodes : List Node
  contactNodesNext : List Node

/-- The nodes of a list. -/
def tableBuilder (nodeList : NodeList) (order : MapOrder) (selfId : Str) : TableBuilder where
  selfId := selfId
  mkNode nodeId := .ok ((nodeList.lookup nodeId).map fun address =>
    ⟨nodeId, address.1, address.2⟩)
  order := order

/-- The block of a contact level, which ends with an exchange of the contact nodes or
without one. -/
def block (builder : TableBuilder) (exchange : Bool)
    (level : List Node → List Node → Except Fault (Ring × List Node)) (state : TableState) :
    Except Fault TableState :=
  if builder.isAmong state.contactNodes then do
    let (ring, next) ← level state.contactNodes state.contactNodesNext
    if exchange then return ⟨state.tables ++ [ring], builder.order.iterate next, []⟩
    else return ⟨state.tables ++ [ring], state.contactNodes, next⟩
  else return state

/-- `EvalClient::create_hgfr_table` -/
def createHgfrTable (p : Topology) (nodeList : NodeList) (order : MapOrder) (selfId : Str) :
    Except Fault (List Ring) := do
  let builder := tableBuilder nodeList order selfId
  let (ring, contactNodes) ← builder.peerLevel p.numNodesInDist p.numCnodesInDist
  let state ← block builder true (builder.contactLevel 1 p.numDistsInCity p.numCnodesInCity
    idDistrictStart idDistrictLen fun id => substr id idSingleStart idSingleLen)
    ⟨[ring], contactNodes, []⟩
  -- the cities are counted with the contact nodes of a district, and nothing is exchanged
  let state ← block builder false (builder.contactLevel 2
    (p.numNodesInState / p.numCnodesInDist) p.numCnodesInState idCityStart idCityLen
    fun id => substrFrom id idDistrictStart) state
  if p.numNodesInCountry = 0 then return state.tables
  else
    let state ← block builder true (builder.contactLevel 3 p.numStatesInCountry
      p.numCnodesInState idStateStart idStateLen fun id => substrFrom id idCityStart) state
    if p.numNodesInContinent = 0 then return state.tables
    else
      let state ← block builder true (builder.contactLevel 4 p.numCountriesInContinent
        p.numCnodesInCountry idCountryStart idCountryLen fun id => substrFrom id idStateStart)
        state
      let state ← block builder false (builder.contactLevel 5 p.numContinents
        p.numCnodesInContinent idContinentStart idContinentLen
        fun id => substrFrom id idCountryStart) state
      return state.tables

end Hgfrr.EvalClient
