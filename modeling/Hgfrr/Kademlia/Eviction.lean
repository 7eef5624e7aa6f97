import Hgfrr.Kademlia.Runs

/-!
# Nodes leave the table only when they do not answer

A node is removed when the time for the answer to a ping that was sent to it has
passed. Every other change of the table keeps all nodes, whatever comes in.
-/

namespace Hgfrr.Kademlia

open Effects Relation

section Protocol

variable [Sha3]

namespace KademliaProtocol

/-- The nodes that were pinged with the `i`-th answer of the world as the echo, and the
answer after it as the time, are still waited for, and are found not to have answered in
time at the `j`-th. -/
def TimedOut (world : World) (s s' : KademliaProtocol) : Set Node :=
  {node | ∃ i j, mkpingid (world.echo i) node ∈ s.expectedPongs.map Prod.fst ∧
    .ping node (world.echo i) ∈ s.sent ∧ i + 1 < s.answers ∧ s.answers ≤ j ∧ j < s'.answers ∧
    world.time (i + 1) + kRequestTimeout < world.time j}

variable {world : World} {self : Node} {heard : Node → Prop} {s₀ s s' : KademliaProtocol}
  {old : List (Bytes × ExpectedPong)} {events : List Event} {event : Event}

/-- The clock is only read on. -/
theorem Change.answers_le (h : Change world old heard s s') : s.answers ≤ s'.answers := by
  cases h with
  | answer => exact Nat.le_succ _
  | send => exact le_rfl
  | ping => exact Nat.le_add_right _ 2
  | requests => exact le_rfl
  | add => exact Nat.le_succ _
  | cache => exact le_rfl
  | forget => exact le_rfl
  | expire => exact Nat.le_succ _

theorem Reach.answers_le (h : Reach world heard s₀ s) : s₀.answers ≤ s.answers := by
  induction h with
  | refl => exact le_rfl
  | tail _ hchange ih => exact ih.trans hchange.answers_le

/-- One change keeps a node, or its ping timed out. -/
theorem Change.keeps_node (h : Change world old heard s s') (hok : Ok world heard s) {node : Node}
    (hnode : node ∈ s.routing.nodes) :
    node ∈ s'.routing.nodes ∨ ∃ entry ∈ old, entry.2.node = node ∧
      entry.2.timeout < world.time s.answers ∧ s.answers < s'.answers := by
  cases h with
  | answer => exact Or.inl hnode
  | send => exact Or.inl hnode
  | ping => exact Or.inl hnode
  | requests => exact Or.inl hnode
  | @add added _ => exact Or.inl ((RoutingTable.addNode_grows hok.wf added _).mem_nodes node hnode)
  | @cache cached _ =>
      exact Or.inl ((RoutingTable.addReplacement_caches hok.wf cached).nodes.mem_iff.mpr hnode)
  | forget => exact Or.inl hnode
  | @expire entry hold htime =>
      by_cases heq : entry.2.node = node
      · exact Or.inr ⟨entry, hold, heq, htime, Nat.lt_succ_self _⟩
      · have hremoves := RoutingTable.removeNode_removes hok.wf entry.2.node
        exact Or.inl (hremoves.mem_nodes_iff.1 hnode (Ne.symm heq))

/-- A node that goes out of the table was awaited, and a reading of the clock is past its
timeout. -/
theorem Reach.keeps_node (h : Reach world heard s₀ s) (hok : Ok world heard s₀) {node : Node}
    (hnode : node ∈ s₀.routing.nodes) :
    node ∈ s.routing.nodes ∨ ∃ entry ∈ s₀.expectedPongs, entry.2.node = node ∧
      ∃ j, s₀.answers ≤ j ∧ j < s.answers ∧ entry.2.timeout < world.time j := by
  induction h with
  | refl => exact Or.inl hnode
  | tail hreach hchange ih =>
      rcases ih with hmem | ⟨entry, hentry, heq, j, hle, hlt, htime⟩
      · have hreach : Reach world heard s₀ _ := hreach
        rcases hchange.keeps_node (hreach.ok hok).1 hmem with
          hmem | ⟨entry, hentry, heq, htime, hlt⟩
        · exact Or.inl hmem
        · exact Or.inr ⟨entry, hentry, heq, _, hreach.answers_le, hlt, htime⟩
      · exact Or.inr ⟨entry, hentry, heq, j, hle, hlt.trans_le hchange.answers_le, htime⟩

theorem Handles.keeps_node (h : Handles world heard s event s') (hok : Ok world heard s)
    {node : Node} (hnode : node ∈ s.routing.nodes) (hgone : node ∉ s'.routing.nodes) :
    node ∈ TimedOut world s s' := by
  have hlost : ∃ entry ∈ s.expectedPongs, entry.2.node = node ∧
      ∃ j, s.answers ≤ j ∧ j < s'.answers ∧ entry.2.timeout < world.time j := by
    cases h with
    | changes h => exact (h.keeps_node hok hnode).resolve_left hgone
    | reply h => exact (h.keeps_node hok hnode).resolve_left hgone
  obtain ⟨entry, hentry, rfl, j, hle, hlt, htime⟩ := hlost
  obtain ⟨i, hawaited⟩ := hok.pongs entry hentry
  exact ⟨i, j, hawaited.pingid ▸ List.mem_map_of_mem hentry, hawaited.sent,
    hawaited.answered, hle, hlt, hawaited.timeout ▸ htime⟩

/-- Whatever events come after a run, every node that is then gone from the table
did not answer a ping in time at one of them. -/
theorem nodes_diff_subset (world : World) (self : Node) (events more : List Event) :
    {node | node ∈ (run world self events).routing.nodes} \
        {node | node ∈ (run world self (events ++ more)).routing.nodes} ⊆
      {node | ∃ before event after, more = before ++ event :: after ∧
        node ∈ TimedOut world (run world self (events ++ before))
          (run world self (events ++ before ++ [event]))} := by
  rintro node ⟨hnode, hgone⟩
  induction more using List.reverseRecOn with
  | nil => exact absurd hnode (by simpa using hgone)
  | append_singleton more event ih =>
      by_cases hmem : node ∈ (run world self (events ++ more)).routing.nodes
      · refine ⟨more, event, [], rfl, ?_⟩
        have hok := (run_ok world self (events ++ more)).1
        refine (run_handles world self (events ++ more) event).keeps_node
          (hok.imp fun n hn => hn.concat event) hmem ?_
        rwa [List.append_assoc]
      · obtain ⟨before, event', after, rfl, htimedOut⟩ := ih hmem
        exact ⟨before, event', after ++ [event], by simp, htimedOut⟩

end KademliaProtocol

end Protocol

namespace Sample

open KademliaProtocol

/-- The node that came in does not answer for a second, and is gone when the next one asks
for nodes. -/
theorem nodes_diff_subset_entered :
    node 1 ∈ (run world (node 0) entered).routing.nodes ∧
      node 1 ∉ (run world (node 0) (entered ++ [.recvFindNode (node 2) 7])).routing.nodes ∧
      ∃ before event after, [Event.recvFindNode (node 2) 7] = before ++ event :: after ∧
        node 1 ∈ TimedOut world (run world (node 0) (entered ++ before))
          (run world (node 0) (entered ++ before ++ [event])) := by
  have hmem : node 1 ∈ (run world (node 0) entered).routing.nodes := by decide +kernel
  have hgone : node 1 ∉
      (run world (node 0) (entered ++ [.recvFindNode (node 2) 7])).routing.nodes := by
    decide +kernel
  exact ⟨hmem, hgone, nodes_diff_subset world (node 0) entered _ ⟨hmem, hgone⟩⟩

end Sample

end Hgfrr.Kademlia
