import Hgfrr.Kademlia.Handlers

/-!
# Runs of the protocol

What holds after any events: the table stays well formed, it holds only nodes
that were heard from, a node leaves it only when a ping to it was not answered in
time, and a handler raises nothing but what the table raises.
-/

namespace Hgfrr.Kademlia

open SortedBy Effects Relation

section Protocol

variable [Sha3] (world : World) (self : Node)

namespace KademliaProtocol

/-- A node is known to be there: the application named it, a request of it came
in, or it answered a ping with the echo of the ping. -/
inductive HeardFrom (events : List Event) (node : Node) : Prop
  | bootstrap {nodes : List Node} (h : .bootstrap nodes ∈ events) (hnode : node ∈ nodes)
  | ping {echo : Bytes} (h : .recvPing node echo ∈ events)
  | findNode {targetid : ℕ} (h : .recvFindNode node targetid ∈ events)
  | pong {before after : List Event} {echoed : Bytes}
      (h : events = before ++ .recvPong node echoed :: after)
      (hsent : .ping node echoed ∈ (run world self before).sent)

/-- What the handler of an event may raise. -/
inductive MayRaise : Event → Error → Prop
  | table {event : Event} {e : Error} (h : TableError e) : MayRaise event e
  | ping : MayRaise (.ping self) .pingsThisNode
  | pong {echoed : Bytes} : MayRaise (.recvPong self echoed) .pongFromThisNode

def Heard (events : List Event) (node : Node) : Prop :=
  node ≠ self ∧ HeardFrom world self events node

variable {world self} {events : List Event} {event : Event} {node : Node}

theorem run_concat (events : List Event) (event : Event) :
    run world self (events ++ [event]) = step world (run world self events) event := by
  simp [run]

theorem Heard.concat (h : Heard world self events node) (event : Event) :
    Heard world self (events ++ [event]) node := by
  refine ⟨h.1, ?_⟩
  cases h.2 with
  | bootstrap h hnode => exact .bootstrap (List.mem_append_left _ h) hnode
  | ping h => exact .ping (List.mem_append_left _ h)
  | findNode h => exact .findNode (List.mem_append_left _ h)
  | pong h hsent => exact .pong (by rw [h, List.append_assoc, List.cons_append]) hsent

theorem new_ok : Ok world (Heard world self []) (new world self) where
  wf := RoutingTable.new_wf
  nodes := fun _ hn => absurd hn List.not_mem_nil
  replacements := fun _ hn => absurd hn List.not_mem_nil
  keys := List.nodup_nil
  pongs := fun _ hn => absurd hn List.not_mem_nil

/-- The state after an event was handled: only a request for nodes is answered
with nodes. -/
inductive Handles (world : World) (heard : Node → Prop) (s : KademliaProtocol) :
    Event → KademliaProtocol → Prop
  | changes {event : Event} {s' : KademliaProtocol} (h : Reach world heard s s') :
      Handles world heard s event s'
  | reply {remote : Node} {targetid : ℕ} {s' : KademliaProtocol} (h : Reach world heard s s') :
      Handles world heard s (.recvFindNode remote targetid) (s'.replied remote targetid)

theorem Handles.ok {heard : Node → Prop} {s s' : KademliaProtocol}
    (h : Handles world heard s event s') (hok : Ok world heard s) :
    Ok world heard s' ∧ s'.thisNode = s.thisNode := by
  cases h with
  | changes h => exact h.ok hok
  | reply h =>
      obtain ⟨hok', hthis⟩ := h.ok hok
      exact ⟨hok'.of_pongs hok'.wf hok'.nodes hok'.replacements (List.Sublist.refl _)
        (List.subset_append_left _ _) le_rfl, hthis⟩

/-- How the handler of an event ends after a run. -/
theorem handle_handles {s : KademliaProtocol} (hs : run world self events = s)
    (hok : Ok world (Heard world self events) s) (hthis : s.thisNode = self) (event : Event) :
    Triple (· = s) (handle world event)
      (fun _ => Handles world (Heard world self (events ++ [event])) s event)
      (fun e s' => Handles world (Heard world self (events ++ [event])) s event s' ∧
        MayRaise self event e) := by
  have hok' := hok.imp fun n hn => Heard.concat hn event
  have hself : ¬ Heard world self (events ++ [event]) s.thisNode := fun h => h.1 hthis
  have hlast : event ∈ events ++ [event] := by simp
  have hfails : ∀ e s', Fails world (Heard world self (events ++ [event])) s e s' →
      Handles world (Heard world self (events ++ [event])) s event s' ∧ MayRaise self event e :=
    fun _ _ h => ⟨.changes h.1, .table h.2⟩
  have htable : ∀ {action : Action Unit}, Triple (· = s) action
      (fun _ => Reach world (Heard world self (events ++ [event])) s)
      (Fails world (Heard world self (events ++ [event])) s) → Triple (· = s) action
        (fun _ => Handles world (Heard world self (events ++ [event])) s event) _ :=
    fun h => h.weaken (fun _ heq => heq) (fun _ _ h => .changes h) hfails
  cases event with
  | bootstrap nodes =>
      exact htable (bootstrap_changes hok' hself fun n hn hne =>
        ⟨hthis ▸ hne, .bootstrap hlast hn⟩)
  | ping node =>
      by_cases hnode : node = s.thisNode
      · intro s' hs'
        rw [hs', handle, hnode, outcome_ping_self]
        exact ⟨.changes ReflTransGen.refl, hthis ▸ .ping⟩
      · exact htable ((ping_changes hok' hnode (by simp)).of_reach ReflTransGen.refl)
  | findNode targetid =>
      exact htable ((findNode_changes targetid none).of_reach ReflTransGen.refl)
  | recvPing remote echo =>
      exact htable (recvPing_changes hok' hself
        (fun hne => ⟨hthis ▸ hne, .ping hlast⟩) echo)
  | recvPong remote echoed =>
      by_cases hnode : remote = s.thisNode
      · intro s' hs'
        rw [hs', handle, hnode, outcome_recvPong_self]
        exact ⟨.changes ReflTransGen.refl, hthis ▸ .pong⟩
      · refine htable (recvPong_changes hok' hself hnode fun hmem => ⟨hthis ▸ hnode, ?_⟩)
        obtain ⟨entry, hentry, hpingid⟩ := List.mem_map.mp hmem
        obtain ⟨i, hawaited⟩ := hok.pongs entry hentry
        -- a pong that is awaited answers a ping that was sent to the remote node
        obtain ⟨rfl, rfl⟩ := mkpingid_inj (hpingid.symm.trans hawaited.pingid)
        exact .pong rfl (hs ▸ hawaited.sent)
  | recvNeighbours remote neighbours => exact htable (recvNeighbours_changes hok' neighbours)
  | recvFindNode remote targetid =>
      have hreply := recvFindNode_changes hok' hself
        (fun hne => ⟨hthis ▸ hne, .findNode hlast⟩) targetid
      refine hreply.weaken (fun _ heq => heq) ?_ hfails
      rintro _ _ ⟨s'', hs'', rfl⟩
      exact .reply hs''

/-- One event more. -/
theorem step_handles (h : Ok world (Heard world self events) (run world self events) ∧
      (run world self events).thisNode = self) (event : Event) :
    Handles world (Heard world self (events ++ [event])) (run world self events) event
      (run world self (events ++ [event])) := by
  have hend := handle_handles rfl h.1 h.2 event _ rfl
  rw [run_concat, step]
  rcases hout : outcome (handle world event) (run world self events) with ⟨e | _, s'⟩
  · rw [hout] at hend
    exact hend.1
  · rw [hout] at hend
    exact hend

theorem run_ok (world : World) (self : Node) (events : List Event) :
    Ok world (Heard world self events) (run world self events) ∧
      (run world self events).thisNode = self := by
  induction events using List.reverseRecOn with
  | nil => exact ⟨new_ok, rfl⟩
  | append_singleton events event ih =>
      obtain ⟨hok, hthis⟩ := (step_handles ih event).ok (ih.1.imp fun n hn => hn.concat event)
      exact ⟨hok, hthis.trans ih.2⟩

theorem run_handles (world : World) (self : Node) (events : List Event) (event : Event) :
    Handles world (Heard world self (events ++ [event])) (run world self events) event
      (run world self (events ++ [event])) :=
  step_handles (run_ok world self events) event

/-! ## The table -/

/-- After any events the buckets tile the ids by dyadic blocks, each with at most
`kBucketSize` nodes of its own block, and no node is listed twice. -/
theorem run_routing_wf (world : World) (self : Node) (events : List Event) :
    (run world self events).routing.Wf ∧ (run world self events).routing.nodes.Nodup ∧
      self ∉ (run world self events).routing.nodes := by
  obtain ⟨hok, hthis⟩ := run_ok world self events
  have hself : (run world self events).routing.thisNode = self := hthis
  exact ⟨hok.wf, hok.wf.nodup, fun hmem => hok.wf.thisNode (hself.symm ▸ hmem)⟩

/-- In any table that can come up, a bucket is found for every node but those
whose id is the end of a bucket. -/
theorem run_bucketByNode_iff (world : World) (self : Node) (events : List Event) (node : Node) :
    (∃ place, bucketByNode node (run world self events).routing.buckets = .ok place) ↔
      ∀ b ∈ (run world self events).routing.buckets, b.stop ≠ node.id := by
  have htiles := (run_ok world self events).1.wf.tiles
  constructor
  · rintro ⟨place, hfind⟩ b hb hstop
    exact bucketByNode_of_stop htiles hb hstop hfind
  · intro hstop
    cases hfind : bucketByNode node (run world self events).routing.buckets with
    | ok place => exact ⟨place, rfl⟩
    | error e =>
        obtain ⟨b, hb, heq⟩ :=
          exists_stop_of_error htiles (Nat.zero_le _) (KBucket.id_lt node) hfind
        exact absurd heq (hstop b hb)

/-- In any table that can come up, adding a node other than the local one puts it
at the tail of its bucket, gives back the head of a full bucket, or raises, and
keeps all nodes in each case. The recursion needs no more than one call for each
bit of an id. -/
theorem run_addNode_adds (world : World) (self : Node) (events : List Event) (node : Node)
    (now more : ℕ) :
    node = self ∨ (run world self events).routing.Adds node
      ((run world self events).routing.addNode node now (kIdSize + 1 + more)) := by
  obtain ⟨hok, hthis⟩ := run_ok world self events
  have hself : (run world self events).routing.thisNode = self := hthis
  by_cases hne : node = self
  · exact Or.inl hne
  · refine Or.inr (RoutingTable.addNode_adds hok.wf (hself.symm ▸ hne) (hok.wf.fueled ?_) now)
    exact Nat.lt_add_right more (Nat.lt_succ_self kIdSize)

/-- The table holds only nodes that are known to be there. -/
theorem run_nodes_heardFrom (world : World) (self : Node) (events : List Event) :
    {node | node ∈ (run world self events).routing.nodes} ⊆
      {node | HeardFrom world self events node} :=
  fun node hnode => ((run_ok world self events).1.nodes node hnode).2

/-- A handler raises nothing but what the table raises. -/
theorem handle_mayRaise (world : World) (self : Node) (events : List Event) (event : Event) :
    match (outcome (handle world event) (run world self events)).1 with
    | .ok _ => True
    | .error e => MayRaise self event e := by
  have hend := handle_handles rfl (run_ok world self events).1
    (run_ok world self events).2 event _ rfl
  rcases hout : outcome (handle world event) (run world self events) with ⟨e | _, s'⟩
  · rw [hout] at hend
    exact hend.2
  · trivial

end KademliaProtocol

end Protocol

/-! ## A run -/

namespace Sample

open KademliaProtocol

/-- The first bytes of what is hashed, as many as a hash has. -/
scoped instance firstBytes : Sha3 where
  sha3 seed := (seed ++ List.replicate 32 0).take 32
  length_sha3 seed := by simp

def node (byte : UInt8) : Node := ⟨List.replicate 64 byte, List.length_replicate⟩

/-- A second passes between two answers. -/
def world : World := ⟨fun i => 1000 * i, fun _ start _ => start, fun i => [UInt8.ofNat i]⟩

/-- A node comes in with a ping, and is pinged itself. -/
def entered : List Event := [.recvPing (node 1) [], .ping (node 1)]

/-- The node is in the table, and a request came in from it. -/
theorem run_nodes_heardFrom_entered :
    node 1 ∈ (run world (node 0) entered).routing.nodes ∧
      HeardFrom world (node 0) entered (node 1) := by
  have hmem : node 1 ∈ (run world (node 0) entered).routing.nodes := by decide +kernel
  exact ⟨hmem, run_nodes_heardFrom world (node 0) entered hmem⟩

end Sample

end Hgfrr.Kademlia
