import Hgfrr.Topology.FormStructure

/-!
# The shape of the tables

The rings of a node keep what the protocol relies on: the node is in each of them
once, the map of peers and the list of peers hold the same nodes, the contact nodes
are some of them, and whoever is a contact node has the ring above.
-/

namespace Hgfrr

open Coords

/-- What is expected of a ring in the tables of a node. -/
structure Ring.Represents (ring : Ring) (level : ℕ) (selfId : Str) : Prop where
  ringLevel : ring.ringLevel = level
  own : ring.peerIds.count selfId = 1
  nodup : ring.peerIds.Nodup
  keys : ∀ id, id ∈ ring.peerSet.map Prod.fst ↔ id ∈ ring.peerIds
  contacts_ne_nil : ring.contactNodes ≠ []
  contacts_subset : ∀ entry ∈ ring.contactNodes, entry ∈ ring.peerSet

/-- A ring of the regions is a ring as it should be. -/
theorem Topology.represents_text {p : Topology} {top level : ℕ} {order : MapOrder} {x : Coords}
    {ring : Ring} {node : Str → Node} (hR : (p.regionsUpTo top order).Proper)
    (hx : (p.regionsUpTo top order).Member x) (hname : ∀ id, (node id).id = id)
    (hring : (p.regionsUpTo top order).HasRing level x)
    (h : ring.Shows node level (((p.regionsUpTo top order).peers level x).map text)
      (((p.regionsUpTo top order).kept level x).map text)) :
    ring.Represents level (text x) := by
  have hnodup : (((p.regionsUpTo top order).peers level x).map text).Nodup :=
    hR.keyed.nodup_keys (fun _ => Regions.member_of_mem_peers hx)
      (Regions.nodup_peers hR.keyed hx)
  refine ⟨h.ringLevel, ?_, ?_, fun id => ?_, fun hnil => ?_, fun entry hentry => ?_⟩
  · rw [h.peerIds_eq hname]
    exact List.count_eq_one_of_mem hnodup (List.mem_map_of_mem (hring.mem_peers hx))
  · rwa [h.peerIds_eq hname]
  · rw [h.mem_peerKeys, h.peerIds_eq hname]
  · have hperm := h.contactNodes
    rw [hnil, List.nil_perm, List.map_eq_nil_iff, List.map_eq_nil_iff] at hperm
    have hlength : ((p.regionsUpTo top order).kept level x).length = _ :=
      Regions.length_kept hR.keyed hx
    rw [hperm, List.length_nil] at hlength
    exact absurd hlength (hR.width_pos hring.1).ne
  · have hmem := h.contactNodes.subset hentry
    obtain ⟨id, hid, rfl⟩ := List.mem_map.mp hmem
    obtain ⟨c, hc, rfl⟩ := List.mem_map.mp hid
    exact h.peerSet.symm.subset
      (List.mem_map_of_mem (List.mem_map_of_mem (Regions.mem_peers_of_mem_kept hc)))

/-- Every node of the network forms tables with a ring of its district, in which the rings
are as they should be, and which reach as far up as the node is a contact node. -/
theorem formStructure_represents (p : Topology) (hused : p.Used)
    (hfit : p.NumbersFit (p.top + 1)) (startingPortNumber : ℕ) (order : MapOrder) (id : Str)
    (hid : id ∈ p.ids) :
    ∃ rings, BaseApp.formStructure p startingPortNumber order id = .ok rings ∧
      (∃ ring : Ring, rings[0]? = some ring) ∧
      (∀ (level : ℕ) (ring : Ring), rings[level]? = some ring → ring.Represents level id) ∧
      ∀ level : ℕ, (∃ ring : Ring, rings[level + 1]? = some ring) ↔
        level + 1 ≤ p.top ∧ ∃ ring : Ring, rings[level]? = some ring ∧
          id ∈ ring.contactNodes.map Prod.fst := by
  obtain ⟨x, hx, rfl⟩ := hid
  obtain ⟨rings, hrings⟩ := BaseApp.exists_formStructure p startingPortNumber order
    (le_trans (by decide) (le_length_text x))
  have htext := BaseApp.rings_text hfit hx hrings
  have hR : (p.regions order).Proper := hused.proper hfit order
  have hmember : (p.regions order).Member x := Topology.member_iff.mpr hx
  have hcontact {level : ℕ} {ring : Ring} (hget : rings[level]? = some ring) :
      text x ∈ ring.contactNodes.map Prod.fst ↔ x ∈ (p.regions order).contacts level x := by
    rw [(BaseApp.ring_of_getElem? hfit hx hrings hget).2.mem_contactKeys,
      Regions.mem_contacts_iff hR.keyed hmember, List.mem_map]
    constructor
    · rintro ⟨c, hc, heq⟩
      have hc' := Regions.member_of_mem_peers hmember (Regions.mem_peers_of_mem_kept hc)
      exact hR.key_inj c x hc' hmember heq ▸ hc
    · exact fun hmem => ⟨x, hmem, rfl⟩
  refine ⟨rings, hrings, ?_, fun level ring hget => ?_, fun level => ?_⟩
  · obtain ⟨ring, hget, _⟩ := (htext 0).1 (Regions.hasRing_zero x)
    exact ⟨ring, hget⟩
  · obtain ⟨hhas, hshows⟩ := BaseApp.ring_of_getElem? hfit hx hrings hget
    exact Topology.represents_text hR hmember (fun _ => rfl) hhas hshows
  · constructor
    · rintro ⟨ring, hget⟩
      obtain ⟨htop, hhas, hmem⟩ := Regions.hasRing_succ_iff.mp
          (BaseApp.ring_of_getElem? hfit hx hrings hget).1
      obtain ⟨lower, hlower, _⟩ := (htext level).1 hhas
      exact ⟨htop, lower, hlower, (hcontact hlower).mpr hmem⟩
    · rintro ⟨htop, lower, hlower, hmem⟩
      obtain ⟨ring, hget, _⟩ := (htext (level + 1)).1
        (Regions.hasRing_succ_iff.mpr ⟨htop, (BaseApp.ring_of_getElem? hfit hx hrings hlower).1,
          (hcontact hlower).mp hmem⟩)
      exact ⟨ring, hget⟩

/-- The first node of the four cities. -/
theorem formStructure_represents_fourCities :
    ∃ rings, BaseApp.formStructure fourCities 7000 insertionOrder (text 0) = .ok rings ∧
      (∃ ring : Ring, rings[0]? = some ring) ∧
      (∀ (level : ℕ) (ring : Ring), rings[level]? = some ring → ring.Represents level (text 0)) ∧
      ∀ level : ℕ, (∃ ring : Ring, rings[level + 1]? = some ring) ↔
        level + 1 ≤ fourCities.top ∧ ∃ ring : Ring, rings[level]? = some ring ∧
          text 0 ∈ ring.contactNodes.map Prod.fst := by
  refine formStructure_represents fourCities ⟨?_, ?_⟩ ?_ 7000 insertionOrder (text 0)
    ⟨0, ⟨?_, fun _ _ => rfl⟩, rfl⟩
  · decide
  · decide
  · change ∀ l < _, _
    decide
  · decide

end Hgfrr
