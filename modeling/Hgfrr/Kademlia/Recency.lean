import Hgfrr.Kademlia.Adding

/-!
# Buckets are sorted by the time last seen

Whatever calls a table gets, the nodes of a bucket stand in the order in which
they were last added, so that the head, which is pinged before it is evicted, is
the node that was not seen for the longest time.
-/

namespace Hgfrr.Kademlia

variable [Sha3]

/-- A call that changes a table, with the time. -/
inductive TableCall
  | addNode (node : Node) (now : ℕ)
  | removeNode (node : Node)

/-- A table, and the nodes added to it in the order of the last time. -/
structure SeenTable where
  table : RoutingTable
  lastSeen : List Node

namespace SeenTable

def new (node : Node) (now : ℕ) : SeenTable := ⟨.new node now, []⟩

/-- A node that was added is the last one seen. -/
def call (s : SeenTable) : TableCall → SeenTable
  | .addNode node now =>
      let (result, t) := s.table.addNode node now (kIdSize + 1)
      ⟨t, RoutingTable.seen node result s.lastSeen⟩
  | .removeNode node => ⟨(s.table.removeNode node).2, s.lastSeen⟩

def run (s : SeenTable) (calls : List TableCall) : SeenTable := calls.foldl call s

structure InOrder (s : SeenTable) : Prop where
  wf : s.table.Wf
  nodup : s.lastSeen.Nodup
  buckets : ∀ b ∈ s.table.buckets, b.nodes.Sublist s.lastSeen

variable {s : SeenTable} {node : Node} {now : ℕ}

/-- A new table is in order. -/
theorem new_inOrder : (new node now).InOrder where
  wf := RoutingTable.new_wf
  nodup := List.nodup_nil
  buckets := List.forall_mem_singleton.mpr (List.Sublist.refl _)

omit [Sha3] in
theorem nodup_seen {nodes : List Node} (h : nodes.Nodup) (result : Except Error (Option Node)) :
    (RoutingTable.seen node result nodes).Nodup := by
  unfold RoutingTable.seen
  split
  · rw [← List.concat_eq_append]
    exact (h.erase node).concat h.not_mem_erase
  · exact h

/-- The bucket of the node moves it to the end, as the list of all nodes seen does. -/
theorem InOrder.addNode (h : s.InOrder) (node : Node) (now : ℕ) :
    (s.call (.addNode node now)).InOrder := by
  by_cases hthis : node = s.table.thisNode
  · rw [call, RoutingTable.addNode, if_pos hthis]
    exact h
  · have hadds := RoutingTable.addNode_adds h.wf hthis
      (h.wf.fueled (Nat.lt_succ_self kIdSize)) now
    refine ⟨hadds.wf, nodup_seen h.nodup _, ?_⟩
    intro b hb
    obtain ⟨b', hb', hsub⟩ := hadds.order b hb
    exact hsub.trans (RoutingTable.seen_sublist _ (h.buckets b' hb'))

/-- Taking a node out leaves the order of the others. -/
theorem InOrder.removeNode (h : s.InOrder) (node : Node) :
    (s.call (.removeNode node)).InOrder := by
  have hremoves := RoutingTable.removeNode_removes h.wf node
  refine ⟨hremoves.wf, h.nodup, ?_⟩
  intro b hb
  obtain ⟨b', hb', hsub⟩ := hremoves.order b hb
  exact hsub.trans (h.buckets b' hb')

theorem InOrder.run (h : s.InOrder) (calls : List TableCall) : (s.run calls).InOrder := by
  induction calls generalizing s with
  | nil => exact h
  | cons c calls ih =>
      cases c with
      | addNode node now => exact ih (h.addNode node now)
      | removeNode node => exact ih (h.removeNode node)

/-- After any calls the nodes of a bucket are sorted by the time they were last
seen. -/
theorem run_buckets_sublist (node : Node) (now : ℕ) (calls : List TableCall) :
    ((new node now).run calls).lastSeen.Nodup ∧
      ∀ b ∈ ((new node now).run calls).table.buckets,
        b.nodes.Sublist ((new node now).run calls).lastSeen :=
  ⟨(new_inOrder.run calls).nodup, (new_inOrder.run calls).buckets⟩

end SeenTable

end Hgfrr.Kademlia
