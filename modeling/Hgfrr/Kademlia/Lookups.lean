import Hgfrr.Kademlia.Runs

/-!
# Looking up nodes

A request for nodes is answered with the nearest nodes of the whole table, and a
request of the local node is passed on only to nodes that are nearer to its target
than every node of the table.
-/

namespace Hgfrr.Kademlia

open SortedBy Effects Relation

section Protocol

variable [Sha3]

/-- The nodes in the order of their distance to an id. -/
def byDistance (id : ℕ) (nodes : List Node) : List Node := sortBy (Node.idDistance id) nodes

namespace KademliaProtocol

variable {world : World} {self : Node} {heard : Node → Prop} {s₀ s s' : KademliaProtocol}
  {old : List (Bytes × ExpectedPong)} {events : List Event} {event : Event} {remote : Node}
  {nodes : List Node}

/-- In every table that can come up, the short list of `neighbours` agrees with
the list of all nodes within a distance. -/
theorem run_neighbours (world : World) (self : Node) (events : List Event) (id k distance : ℕ) :
    ((run world self events).routing.neighbours id k).filter (fun n => n.idDistance id ≤ distance) =
      ((run world self events).routing.neighboursWithinDistance id distance).take k :=
  (run_ok world self events).1.wf.neighbours_filter id k distance

/-! ## Answers -/

/-- None of the changes sends a `neighbours` message. -/
theorem Change.neighbours_mem (h : Change world old heard s s')
    (hsent : .neighbours remote nodes ∈ s'.sent) : .neighbours remote nodes ∈ s.sent := by
  cases h with
  | send h =>
      rcases List.mem_append.mp hsent with hmem | hmem
      · exact hmem
      · cases h <;> simp at hmem
  | ping =>
      rcases List.mem_append.mp hsent with hmem | hmem
      · exact hmem
      · simp at hmem
  | answer => exact hsent
  | requests => exact hsent
  | add => exact hsent
  | cache => exact hsent
  | forget => exact hsent
  | expire => exact hsent

theorem Reach.neighbours_mem (h : Reach world heard s₀ s)
    (hsent : .neighbours remote nodes ∈ s.sent) : .neighbours remote nodes ∈ s₀.sent := by
  induction h with
  | refl => exact hsent
  | tail _ hchange ih => exact ih (hchange.neighbours_mem hsent)

/-- Whoever is sent nodes has asked for those near a target, and gets the nearest
of all that are in the table when the request was handled. -/
theorem sent_neighbours (world : World) (self : Node) (events : List Event) :
    {(remote, nodes) | Sent.neighbours remote nodes ∈ (run world self events).sent} ⊆
      {(remote, nodes) | ∃ before after targetid,
        events = before ++ .recvFindNode remote targetid :: after ∧
        nodes = (byDistance targetid (run world self
          (before ++ [.recvFindNode remote targetid])).routing.nodes).take kBucketSize} := by
  rintro ⟨remote, nodes⟩ hsent
  induction events using List.reverseRecOn with
  | nil => exact absurd hsent List.not_mem_nil
  | append_singleton events event ih =>
      -- only the answer to a request adds such a message
      have hstep : Sent.neighbours remote nodes ∈ (run world self events).sent ∨
          ∃ targetid, event = .recvFindNode remote targetid ∧
            nodes = (byDistance targetid
              (run world self (events ++ [event])).routing.nodes).take kBucketSize := by
        have hhandles := run_handles world self events event
        have hok := (run_ok world self (events ++ [event])).1
        revert hsent hok hhandles
        generalize run world self (events ++ [event]) = s'
        intro hsent hhandles hok
        cases hhandles with
        | changes h => exact Or.inl (h.neighbours_mem hsent)
        | @reply remote' targetid s' h =>
            rcases List.mem_append.mp hsent with hmem | hmem
            · exact Or.inl (h.neighbours_mem hmem)
            · obtain ⟨rfl, rfl⟩ := Sent.neighbours.inj (List.mem_singleton.mp hmem)
              exact Or.inr ⟨targetid, rfl, hok.wf.neighbours_eq targetid kBucketSize⟩
      rcases hstep with hsent | ⟨targetid, rfl, hnodes⟩
      · obtain ⟨before, after, targetid, rfl, hnodes⟩ := ih hsent
        exact ⟨before, after ++ [event], targetid, by simp, hnodes⟩
      · exact ⟨events, [], targetid, rfl, hnodes⟩

/-! ## Passing requests on -/

/-- What may be sent when nodes are told: a request that has not timed out, to a
node that is nearer to its target than all that are known, and pings to nodes that
are not known. -/
inductive Forwards (world : World) (s : KademliaProtocol) (neighbours : List Node) : Sent → Prop
  | findNode {closeNode : Node} {targetid timeout j : ℕ}
      (hrequest : (targetid, timeout) ∈ s.findRequests) (hj : s.answers ≤ j)
      (htime : world.time j < timeout) (hmem : closeNode ∈ neighbours)
      (hthis : closeNode ≠ s.thisNode)
      (hnearer : ∀ n ∈ s.routing.nodes, closeNode.idDistance targetid < n.idDistance targetid) :
      Forwards world s neighbours (.findNode closeNode targetid)
  | ping {node : Node} {echo : Bytes} (hmem : node ∈ neighbours) (hthis : node ≠ s.thisNode)
      (hnew : node ∉ s.routing.nodes) : Forwards world s neighbours (.ping node echo)

/-- The state while nodes that were told are looked at. -/
structure Telling (world : World) (s₀ : KademliaProtocol) (neighbours : List Node)
    (s : KademliaProtocol) : Prop where
  routing : s.routing = s₀.routing
  answers : s₀.answers ≤ s.answers
  sent : ∃ new, s.sent = s₀.sent ++ new ∧ ∀ message ∈ new, Forwards world s₀ neighbours message

/-- One more message that the handler may send. -/
theorem Telling.send {neighbours : List Node} (h : Telling world s₀ neighbours s) {message : Sent}
    (hmessage : Forwards world s₀ neighbours message) :
    Telling world s₀ neighbours { s with sent := s.sent ++ [message] } := by
  obtain ⟨new, hsent, hnew⟩ := h.sent
  refine ⟨h.routing, h.answers, new ++ [message], by simp [hsent], ?_⟩
  intro m hm
  rcases List.mem_append.mp hm with hm | hm
  · exact hnew m hm
  · exact List.mem_singleton.mp hm ▸ hmessage

/-- The unknown ones among some nodes. -/
theorem mem_of_unknownNodes {t : RoutingTable} (hwf : t.Wf) {others unknown : List Node}
    (h : unknownNodes t others = .ok unknown) {n : Node} (hn : n ∈ unknown) :
    n ∈ others ∧ n ∉ t.nodes := by
  induction others generalizing unknown with
  | nil =>
      obtain rfl : [] = unknown := Except.ok.inj h
      exact absurd hn List.not_mem_nil
  | cons other others ih =>
      rw [unknownNodes] at h
      cases hfind : bucketByNode other t.buckets with
      | error e =>
          rw [RoutingTable.contains, hfind] at h
          exact absurd h (by simp [Except.map, bind, Except.bind])
      | ok place =>
          cases hrest : unknownNodes t others with
          | error e =>
              rw [RoutingTable.contains, hfind, hrest] at h
              exact absurd h (by simp [Except.map, bind, Except.bind])
          | ok rest =>
              rw [RoutingTable.contains, hfind, hrest] at h
              have heq := Except.ok.inj h
              obtain ⟨hplace, hstart, hstop⟩ := bucketByNode_eq_ok hfind
              by_cases hknown : other ∈ place.bucket.nodes
              · rw [if_pos (by simpa using hknown)] at heq
                obtain ⟨hmem, hnot⟩ := ih hrest (heq ▸ hn)
                exact ⟨List.mem_cons_of_mem _ hmem, hnot⟩
              · rw [if_neg (by simpa using hknown)] at heq
                rcases List.mem_cons.mp (heq ▸ hn) with rfl | hmem
                · refine ⟨List.mem_cons_self, ?_⟩
                  rw [(RoutingTable.nodes_put_perm hplace []).2.mem_iff, List.mem_append, not_or]
                  exact ⟨hwf.not_mem_others hplace ⟨hstart, hstop.le⟩, hknown⟩
                · obtain ⟨hmem, hnot⟩ := ih hrest hmem
                  exact ⟨List.mem_cons_of_mem _ hmem, hnot⟩

/-- Nearer than the nearest node found is nearer than all nodes. -/
theorem nearer_of_closestKnown {t : RoutingTable} (hwf : t.Wf) {id : ℕ} {closeNode : Node}
    (h : ∀ known ∈ (t.neighbours id kBucketSize).head?,
      closeNode.idDistance id < known.idDistance id) :
    ∀ n ∈ t.nodes, closeNode.idDistance id < n.idDistance id := by
  intro n hn
  cases hhead : (t.neighbours id kBucketSize).head? with
  | none =>
      rw [hwf.nodes_eq_nil (k := 15) hhead] at hn
      exact absurd hn List.not_mem_nil
  | some known =>
      exact (h known hhead).trans_le (hwf.le_of_head_neighbours (k := 15) hhead hn)

theorem forwardRequest_telling (hwf : s₀.routing.Wf) {neighbours unknown : List Node}
    (hunknown : ∀ n ∈ unknown, n ∈ neighbours ∧ n ≠ s₀.thisNode) {request : ℕ × ℕ}
    (hrequest : request ∈ s₀.findRequests) :
    Keeps (Telling world s₀ neighbours) (forwardRequest world unknown request) := by
  intro s hs
  rw [forwardRequest, outcome_bind, outcome_answer]
  have hs' : Telling world s₀ neighbours { s with answers := s.answers + 1 } :=
    ⟨hs.routing, hs.answers.trans (Nat.le_succ _), hs.sent⟩
  by_cases htime : world.time s.answers < request.2
  · simp only [if_pos htime, outcome_bind, outcome_get]
    split
    next => exact hs'
    next =>
      have hloop : Keeps (Telling world s₀ neighbours)
          (forM ((sortBy (Node.idDistance request.1) unknown).take kFindConcurrency)
            fun closeNode =>
              if ∀ known ∈ (s.routing.neighbours request.1 kBucketSize).head?,
                  closeNode.idDistance request.1 < known.idDistance request.1 then
                send (.findNode closeNode request.1)
              else return) := by
        refine Keeps.forM fun closeNode hclose => ?_
        have hmem := hunknown closeNode (mem_sortBy.mp (List.mem_of_mem_take hclose))
        split
        next hknown =>
          rw [hs.routing] at hknown
          intro s' hs'
          exact hs'.send (.findNode hrequest hs.answers htime hmem.1 hmem.2
            (nearer_of_closestKnown hwf hknown))
        next => exact keeps_pure
      exact hloop _ hs'
  · simp only [if_neg htime]
    exact hs'

theorem recvNeighbours_telling (hwf : s₀.routing.Wf) (neighbours : List Node) :
    Triple (· = s₀) (recvNeighbours world neighbours) (fun _ => Telling world s₀ neighbours)
      (fun _ => Telling world s₀ neighbours) := by
  have hrefl : Telling world s₀ neighbours s₀ := ⟨rfl, le_rfl, [], by simp, by simp⟩
  apply triple_get_self
  cases hlookup : unknownNodes s₀.routing (neighbours.filter fun n => n ≠ s₀.thisNode) with
  | error e =>
      rintro s rfl
      dsimp only
      rw [outcome_bind, outcome_ofExcept, hlookup]
      exact hrefl
  | ok unknown =>
      have hunknown : ∀ n ∈ unknown, n ∈ neighbours ∧ n ≠ s₀.thisNode ∧ n ∉ s₀.routing.nodes := by
        intro n hn
        obtain ⟨hmem, hnot⟩ := mem_of_unknownNodes hwf hlookup hn
        rw [List.mem_filter, decide_eq_true_eq] at hmem
        exact ⟨hmem.1, hmem.2, hnot⟩
      have hloop : Keeps (Telling world s₀ neighbours) (do
          forM s₀.findRequests (forwardRequest world unknown)
          forM unknown fun node =>
            if node ≠ s₀.thisNode then ping world node none else return) := by
        refine (Keeps.forM fun request hrequest => forwardRequest_telling hwf
          (fun n hn => ⟨(hunknown n hn).1, (hunknown n hn).2.1⟩) hrequest).bind fun _ => ?_
        refine Keeps.forM fun node hnode => ?_
        obtain ⟨hmem, hthis, hnew⟩ := hunknown node hnode
        rw [if_pos hthis]
        intro s hs
        have hthis' : node ≠ s.thisNode := by
          rw [thisNode, hs.routing]
          exact hthis
        rw [outcome_ping hthis']
        obtain ⟨hrouting, hanswers, hsent⟩ := hs.send (.ping hmem hthis hnew)
        exact ⟨hrouting, hanswers.trans (Nat.le_add_right _ 2), hsent⟩
      rintro s rfl
      dsimp only
      rw [outcome_bind, outcome_ofExcept, hlookup]
      exact hloop s hrefl

/-- When nodes are told after any run, requests are passed on to nodes that are
nearer to their target than every node of the table, and other nodes are pinged
only if they are new. -/
theorem sent_recvNeighbours (world : World) (self : Node) (events : List Event) (remote : Node)
    (neighbours : List Node) :
    ∃ new, (run world self (events ++ [.recvNeighbours remote neighbours])).sent =
        (run world self events).sent ++ new ∧
      ∀ message ∈ new, Forwards world (run world self events) neighbours message := by
  have hwf := (run_ok world self events).1.wf
  have hend : Ends _ _ (outcome (recvNeighbours world neighbours) (run world self events)) :=
    recvNeighbours_telling hwf neighbours _ rfl
  rw [run_concat, step, handle]
  rcases hout : outcome (recvNeighbours world neighbours) (run world self events) with ⟨e | _, s'⟩
  · rw [hout] at hend
    exact hend.sent
  · rw [hout] at hend
    exact hend.sent

end KademliaProtocol

end Protocol

namespace Sample

open KademliaProtocol

/-- A node that asks after the other one has left is told of itself. -/
theorem sent_neighbours_entered :
    ∃ before after targetid, entered ++ [.recvFindNode (node 2) 7] =
        before ++ .recvFindNode (node 2) targetid :: after ∧
      [node 2] = (byDistance targetid (run world (node 0)
        (before ++ [.recvFindNode (node 2) targetid])).routing.nodes).take kBucketSize := by
  have hsent : Sent.neighbours (node 2) [node 2] ∈
      (run world (node 0) (entered ++ [.recvFindNode (node 2) 7])).sent := by
    decide +kernel
  have htold : (node 2, [node 2]) ∈ {(remote, nodes) | Sent.neighbours remote nodes ∈
      (run world (node 0) (entered ++ [.recvFindNode (node 2) 7])).sent} := hsent
  exact sent_neighbours world (node 0) _ htold

end Sample

end Hgfrr.Kademlia
