import Hgfrr.Model.Text

/-!
# Numbers and ids of nodes

A node is known by its number in the network and by its id, a text with one
segment for each level: continent, country, state, city, district, and the node
within its district.
-/

namespace Hgfrr

def idContinentLen : ℕ := 3
def idCountryLen : ℕ := 4
def idStateLen : ℕ := 5
def idCityLen : ℕ := 6
def idDistrictLen : ℕ := 5
def idSingleLen : ℕ := 9

def idContinentStart : ℕ := 0
def idCountryStart : ℕ := 3
def idStateStart : ℕ := 7
def idCityStart : ℕ := 12
def idDistrictStart : ℕ := 18
def idSingleStart : ℕ := 23

/-- The parameters of a topology. The program divides by the first four contact
counts before it does anything else, so these are positive. -/
structure Topology where
  numNodesInDist : ℕ
  numCnodesInDist : ℕ
  numNodesInCity : ℕ
  numCnodesInCity : ℕ
  numNodesInState : ℕ
  numCnodesInState : ℕ
  numNodesInCountry : ℕ
  numCnodesInCountry : ℕ
  numNodesInContinent : ℕ
  numContinents : ℕ
  numCnodesInContinent : ℕ
  dist_pos : 0 < numCnodesInDist := by first | exact Nat.one_pos | exact Nat.two_pos
  city_pos : 0 < numCnodesInCity := by first | exact Nat.one_pos | exact Nat.two_pos
  state_pos : 0 < numCnodesInState := by first | exact Nat.one_pos | exact Nat.two_pos
  country_pos : 0 < numCnodesInCountry := by first | exact Nat.one_pos | exact Nat.two_pos
deriving DecidableEq, Repr

namespace Topology

variable (p : Topology)

/-! The regions in a region one level up, as `form_structure` counts them. -/

def numDistsInCity : ℕ := p.numNodesInCity / p.numCnodesInDist
def numCitiesInState : ℕ := p.numNodesInState / p.numCnodesInCity
def numStatesInCountry : ℕ := p.numNodesInCountry / p.numCnodesInState
def numCountriesInContinent : ℕ := p.numNodesInContinent / p.numCnodesInCountry

end Topology

/-- A count of regions, where zero is taken for one. -/
def atLeastOne (count : ℕ) : ℕ := if count = 0 then 1 else count

/-- `convert_ID_int_to_string` -/
def convertIDIntToString (id : ℕ) (p : Topology) : Str :=
  let numNodesInOneDist := p.numNodesInDist
  let numDistsInCity := atLeastOne (p.numNodesInCity / p.numCnodesInDist)
  let numNodesInOneCity := numNodesInOneDist * numDistsInCity
  let numCitiesInState := atLeastOne (p.numNodesInState / p.numCnodesInCity)
  let numNodesInOneState := numNodesInOneCity * numCitiesInState
  let numStatesInCountry := atLeastOne (p.numNodesInCountry / p.numCnodesInState)
  let numNodesInOneCountry := numNodesInOneState * numStatesInCountry
  let numCountriesInContinent := atLeastOne (p.numNodesInContinent / p.numCnodesInCountry)
  let numNodesInOneContinent := numNodesInOneCountry * numCountriesInContinent
  setw idContinentLen (id / numNodesInOneContinent) ++
    (setw idCountryLen (id / numNodesInOneCountry % numCountriesInContinent) ++
      (setw idStateLen (id / numNodesInOneState % numStatesInCountry) ++
        (setw idCityLen (id / numNodesInOneCity % numCitiesInState) ++
          (setw idDistrictLen (id / numNodesInOneDist % numDistsInCity) ++
            setw idSingleLen (id % numNodesInOneDist)))))

/-- `convert_ID_string_to_int` -/
def convertIDStringToInt (id : Str) (p : Topology) : Except Fault ℤ := do
  let idInDist ← substrFrom id idSingleStart
  let distId ← substr id idDistrictStart idDistrictLen
  let cityId ← substr id idCityStart idCityLen
  let stateId ← substr id idStateStart idStateLen
  let countryId ← substr id idCountryStart idCountryLen
  let continentId ← substr id idContinentStart idContinentLen
  let numNodesInOneDist := p.numNodesInDist
  let numDistsInCity := p.numNodesInCity / p.numCnodesInDist
  let numNodesInOneCity := numNodesInOneDist * numDistsInCity
  -- the divisor is the contact count of the districts here
  let numCitiesInState := p.numNodesInState / p.numCnodesInDist
  let numNodesInOneState := numNodesInOneCity * numCitiesInState
  let numStatesInCountry := p.numNodesInCountry / p.numCnodesInState
  let numNodesInOneCountry := numNodesInOneState * numStatesInCountry
  let numCountriesInContinent := p.numNodesInContinent / p.numCnodesInCountry
  let numNodesInOneContinent := numNodesInOneCountry * numCountriesInContinent
  return numNodesInOneContinent * streamInt continentId +
    numNodesInOneCountry * streamInt countryId +
    numNodesInOneState * streamInt stateId +
    numNodesInOneCity * streamInt cityId +
    numNodesInOneDist * streamInt distId +
    streamInt idInDist

/-- The port of a node: `starting_port_number` and the number of the node, added
as an `unsigned short`. -/
def portOf (startingPortNumber : ℕ) (id : Str) (p : Topology) : Except Fault ℕ :=
  (convertIDStringToInt id p).map fun number => ((startingPortNumber + number) % 2 ^ 16).toNat

end Hgfrr
