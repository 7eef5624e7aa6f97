import Hgfrr.Kademlia.Changes
import Hgfrr.Kademlia.Neighbours

/-!
# The handlers as sequences of changes

Every handler only makes changes of the listed kinds, and what it raises comes
from the routing table: the assertions about the local node hold in every state
that is reached.
-/

namespace Hgfrr.Kademlia

open SortedBy Effects Relation

variable [Sha3]

namespace KademliaProtocol

variable {world : World} {heard : Node → Prop} {s₀ s : KademliaProtocol} {node : Node}

section Outcome

omit [Sha3] in
@[simp] theorem outcome_answer {α : Type} (f : ℕ → α) :
    outcome (answer f) s = (.ok (f s.answers), { s with answers := s.answers + 1 }) := rfl

omit [Sha3] in
@[simp] theorem outcome_send (message : Sent) :
    outcome (send message) s = (.ok (), { s with sent := s.sent ++ [message] }) := rfl

omit [Sha3] in
/-- A ping to another node is sent, and its pong is awaited. -/
theorem outcome_ping (hnode : node ≠ s.thisNode) (replacement : Option Node) :
    outcome (ping world node replacement) s = (.ok (), s.pinged world node replacement) := by
  simp [ping, outcome_bind, hnode, sendPing, pinged]

omit [Sha3] in
@[simp] theorem outcome_onRouting {α : Type}
    (call : RoutingTable → Except Error α × RoutingTable) :
    outcome (onRouting call) s =
      ((call s.routing).1, { s with routing := (call s.routing).2 }) := rfl

omit [Sha3] in
/-- A node refuses to ping itself. -/
theorem outcome_ping_self (replacement : Option Node) :
    outcome (ping world s.thisNode replacement) s = (.error .pingsThisNode, s) := by
  simp [ping, outcome_bind]

/-- A node refuses a pong of its own. -/
theorem outcome_recvPong_self (echoed : Bytes) :
    outcome (recvPong world s.thisNode echoed) s = (.error .pongFromThisNode, s) := by
  simp [recvPong, outcome_bind]

/-- `add_node` reads the clock once. -/
theorem outcome_addNode :
    outcome (addNode world node) s =
      ((s.routing.addNode node (world.time s.answers) (kIdSize + 1)).1, s.added world node) := by
  simp [addNode, outcome_bind, added]

theorem outcome_addReplacement :
    outcome (addReplacement node) s = ((s.routing.addReplacement node).1, s.cached node) := rfl

end Outcome

/-! ## Sequences of changes -/

/-- The state can come up while a message is handled that came in state `s₀`. -/
def Reach (world : World) (heard : Node → Prop) (s₀ s : KademliaProtocol) : Prop :=
  ReflTransGen (Change world s₀.expectedPongs heard) s₀ s

/-- What holds of all states is kept by the changes of a handler. -/
theorem Reach.ok (h : Reach world heard s₀ s) (hok : Ok world heard s₀) :
    Ok world heard s ∧ s.thisNode = s₀.thisNode := by
  induction h with
  | refl => exact ⟨hok, rfl⟩
  | tail _ hchange ih =>
      obtain ⟨hok', hthis⟩ := hchange.ok ih.1
      exact ⟨hok', hthis.trans ih.2⟩

/-- The nearest nodes are sent to a node that asked for them. -/
def replied (s : KademliaProtocol) (remote : Node) (targetid : ℕ) : KademliaProtocol :=
  { s with
    sent := s.sent ++ [.neighbours remote (s.routing.neighbours targetid kBucketSize)] }

/-- What the routing table raises. -/
inductive TableError : Error → Prop
  | outOfBucket : TableError .outOfBucket
  | noBucket : TableError .noBucket
  | noDepth : TableError .noDepth

/-- The errors of the table are those that a handler may raise. -/
theorem tableError_of_raises {t : RoutingTable} {e : Error} (h : t.Raises node e) :
    TableError e := by
  cases h with
  | outOfBucket => exact .outOfBucket
  | noBucket => exact .noBucket
  | noDepth => exact .noDepth

/-- How a handler may fail. -/
def Fails (world : World) (heard : Node → Prop) (s₀ : KademliaProtocol) (e : Error)
    (s : KademliaProtocol) : Prop :=
  Reach world heard s₀ s ∧ TableError e

/-- An action that makes changes only. -/
def Changes (world : World) (heard : Node → Prop) (s₀ : KademliaProtocol) {α : Type}
    (action : Action α) : Prop :=
  Triple (Reach world heard s₀) action (fun _ => Reach world heard s₀) (Fails world heard s₀)

/-- A handler may be called in any state that was reached before. -/
theorem Changes.of_reach {α : Type} {action : Action α} (h : Changes world heard s₀ action)
    (hs : Reach world heard s₀ s) :
    Triple (· = s) action (fun _ => Reach world heard s₀) (Fails world heard s₀) :=
  Triple.weaken h (fun _ heq => heq ▸ hs) (fun _ _ hreach => hreach) fun _ _ hfails => hfails

section Actions

variable (hok : Ok world heard s₀) (hself : ¬ heard s₀.thisNode)

theorem answer_changes {α : Type} (f : ℕ → α) : Changes world heard s₀ (answer f) :=
  fun s hs => hs.tail (.answer s)

theorem send_changes {message : Sent} (h : Passing message) :
    Changes world heard s₀ (send message) :=
  fun s hs => hs.tail (.send s h)

include hok in
/-- A ping to another node with a replacement that was heard from. -/
theorem ping_changes (hnode : node ≠ s₀.thisNode) {replacement : Option Node}
    (hheard : ∀ r ∈ replacement, heard r) :
    Changes world heard s₀ (ping world node replacement) := by
  intro s hs
  rw [outcome_ping (by rwa [(hs.ok hok).2])]
  exact hs.tail (.ping s hheard)

theorem requests_changes (f : KademliaProtocol → List (ℕ × ℕ)) :
    Changes world heard s₀ (modify fun s => { s with findRequests := f s }) :=
  fun s hs => hs.tail (.requests s (f s))

/-- Asking the nearest nodes for a target. -/
theorem queryNeighbours_changes (targetid : ℕ) :
    Changes world heard s₀ (queryNeighbours targetid) := by
  apply triple_get_bind
  intro s hs
  have hloop : Changes world heard s₀
      (forM ((s.routing.neighbours targetid kBucketSize).take kFindConcurrency) fun n =>
        send (.findNode n targetid)) :=
    Triple.forM fun n _ => send_changes .findNode
  exact hloop.of_reach hs

/-- A lookup is noted as a request, and goes to one node or to the nearest ones. -/
theorem findNode_changes (targetid : ℕ) (viaNode : Option Node) :
    Changes world heard s₀ (findNode world targetid viaNode) := by
  refine (answer_changes _).bind fun time => (requests_changes _).bind fun _ => ?_
  cases viaNode with
  | some node => exact send_changes .findNode
  | none => exact queryNeighbours_changes targetid

include hok hself in
/-- The candidate for eviction is not the local node. -/
theorem addNode_triple (hheard : heard node) :
    Triple (Reach world heard s₀) (addNode world node)
      (fun candidate s => Reach world heard s₀ s ∧ ∀ c ∈ candidate, c ≠ s₀.thisNode)
      (Fails world heard s₀) := by
  intro s hs
  obtain ⟨hok', hthis⟩ := hs.ok hok
  have hsame : s.routing.thisNode = s₀.thisNode := hthis
  have hne : node ≠ s.routing.thisNode := by
    rw [hsame]
    rintro rfl
    exact hself hheard
  have hadds := RoutingTable.addNode_adds hok'.wf hne
    (hok'.wf.fueled (Nat.lt_succ_self kIdSize)) (world.time s.answers)
  have hreach : Reach world heard s₀ (s.added world node) := hs.tail (.add s hheard)
  rw [outcome_addNode]
  cases hresult : (s.routing.addNode node (world.time s.answers) (kIdSize + 1)).1 with
  | error e =>
      have houtcome := hadds.outcome
      rw [hresult] at houtcome
      cases houtcome with
      | raised _ hraises => exact ⟨hreach, tableError_of_raises hraises⟩
  | ok candidate =>
      refine ⟨hreach, ?_⟩
      intro c hc
      obtain rfl := Option.mem_def.mp hc
      have houtcome := hadds.outcome
      rw [hresult] at houtcome
      cases houtcome with
      | full _ _ hb _ _ hhead =>
          rintro rfl
          apply hadds.wf.thisNode
          rw [hadds.thisNode, hsame]
          exact List.mem_flatMap.mpr ⟨_, hb, List.mem_of_mem_head? hhead⟩

include hok hself in
/-- A node that was heard from is added, or the head of its bucket is pinged. -/
theorem addOrPing_changes (hheard : heard node) :
    Changes world heard s₀ (addOrPing world node) := by
  apply (addNode_triple hok hself hheard).bind
  intro candidate
  cases candidate with
  | none => exact triple_pure fun s hs => hs.1
  | some c =>
      intro s hs
      refine ping_changes hok (hs.2 c rfl) ?_ s hs.1
      intro r hr
      obtain rfl := Option.some_inj.mp hr
      exact hheard

include hok hself in
/-- The replacements of all buckets with room are pinged. -/
theorem pingReplacements_changes : Changes world heard s₀ (pingReplacements world) := by
  apply triple_get_bind
  intro s hs
  obtain ⟨hok', hthis⟩ := hs.ok hok
  have hloop : Changes world heard s₀ (forM s.routing.notFullBuckets fun b =>
      forM b.replacementCache fun node => ping world node none) := by
    refine Triple.forM fun b hb => Triple.forM fun node hnode => ping_changes hok ?_ (by simp)
    rintro rfl
    have hmem : s₀.thisNode ∈ s.routing.replacements :=
      List.mem_flatMap.mpr ⟨b, List.mem_of_mem_filter hb, hnode⟩
    exact hself (hok'.replacements _ hmem)
  exact hloop.of_reach hs

/-- Buckets that were idle for long are refreshed by lookups. -/
theorem refreshIdleBuckets_changes : Changes world heard s₀ (refreshIdleBuckets world) := by
  refine (answer_changes _).bind fun time => triple_get_bind fun s hs => ?_
  have hloop : Changes world heard s₀ (forM (s.routing.idleBuckets time) fun b => do
      let rid ← answer fun i => world.randint i b.start b.stop
      findNode world rid none) :=
    Triple.forM fun b _ => (answer_changes _).bind fun rid => findNode_changes rid none
  exact hloop.of_reach hs

theorem liveRequests_changes (requests : List (ℕ × ℕ)) :
    Changes world heard s₀ (liveRequests world requests) := by
  induction requests with
  | nil => exact triple_pure fun _ hs => hs
  | cons request requests ih =>
      refine (answer_changes _).bind fun time => Triple.bind ih fun live => ?_
      exact triple_pure fun _ hs => hs

/-- Requests that have timed out are dropped. -/
theorem pruneRequests_changes : Changes world heard s₀ (pruneRequests world) := by
  apply triple_get_bind
  intro s hs
  have hloop : Changes world heard s₀ (do
      let live ← liveRequests world s.findRequests
      modify fun s => { s with findRequests := live }) :=
    (liveRequests_changes _).bind fun live => requests_changes fun _ => live
  exact hloop.of_reach hs

/-! ## Update -/

include hok in
theorem addReplacement_changes (hheard : heard node) :
    Changes world heard s₀ (addReplacement node) := by
  intro s hs
  have hreach : Reach world heard s₀ (s.cached node) := hs.tail (.cache s hheard)
  have hcaches := RoutingTable.addReplacement_caches (hs.ok hok).1.wf node
  rw [outcome_addReplacement]
  cases hresult : (s.routing.addReplacement node).1 with
  | ok => exact hreach
  | error e => exact ⟨hreach, tableError_of_raises (hcaches.raises e hresult)⟩

theorem forget_changes (pingid : Bytes) : Changes world heard s₀ (forget pingid) :=
  fun s hs => hs.tail (.forget s pingid)

include hok in
/-- A pong that was awaited puts the replacement into the cache. -/
theorem acceptPong_changes (pingid : Bytes) : Changes world heard s₀ (acceptPong pingid) := by
  apply triple_get_bind
  intro s hs
  cases hlookup : s.expectedPongs.lookup pingid with
  | none =>
      rintro _ rfl
      exact hs
  | some expected =>
      obtain ⟨i, hawaited⟩ := (hs.ok hok).1.pongs _ (AssocMap.mem_of_lookup hlookup)
      have hloop : Changes world heard s₀ (do
          forM expected.replacement.toList addReplacement
          forget pingid) := by
        refine Triple.bind (Triple.forM fun r hr => ?_) fun _ => forget_changes pingid
        exact addReplacement_changes hok (hawaited.heard r (Option.mem_toList.mp hr))
      exact hloop.of_reach hs

include hok in
/-- The loop over the expected pongs calls `update` when there are fewer. -/
theorem expirePongs_changes {m : ℕ} {update : Node → Action Unit}
    (hupdate : ∀ r, heard r → Triple
      (fun s => Reach world heard s₀ s ∧ s.expectedPongs ⊆ s₀.expectedPongs ∧
        s.expectedPongs.length < m)
      (update r) (fun _ => Reach world heard s₀) (Fails world heard s₀))
    {rest : List (Bytes × ExpectedPong)} (hkeys : (rest.map Prod.fst).Nodup) :
    Triple
      (fun s => Reach world heard s₀ s ∧ s.expectedPongs ⊆ s₀.expectedPongs ∧
        s.expectedPongs.length ≤ m ∧ rest ⊆ s.expectedPongs)
      (expirePongs world update node rest) (fun _ => Reach world heard s₀)
      (Fails world heard s₀) := by
  induction rest with
  | nil => exact triple_pure fun s hs => hs.1
  | cons entry rest ih =>
      obtain ⟨hkey, hkeys⟩ := List.nodup_cons.mp hkeys
      rintro s ⟨hs, hsub, hlength, hrest⟩
      obtain ⟨hentry, hrest⟩ := List.cons_subset.mp hrest
      rw [expirePongs, outcome_bind, outcome_answer]
      by_cases htime : world.time s.answers > entry.2.timeout
      · have hexpired : Reach world heard s₀ (s.expired entry) :=
          hs.tail (.expire s (hsub hentry) htime)
        -- with one pong less to await the recursion goes down
        have hless : (s.expired entry).expectedPongs.length < m := by
          refine lt_of_lt_of_le (List.length_filter_lt_length_iff_exists.mpr ?_) hlength
          exact ⟨entry, hentry, by simp⟩
        have hsub' : (s.expired entry).expectedPongs ⊆ s₀.expectedPongs :=
          fun other hother => hsub (List.mem_of_mem_filter hother)
        have hremoves := RoutingTable.removeNode_removes (hs.ok hok).1.wf entry.2.node
        simp only [if_pos htime, outcome_bind, forget, outcome_modify, removeNode,
          outcome_onRouting]
        cases hresult : (s.routing.removeNode entry.2.node).1 with
        | error e => exact ⟨hexpired, tableError_of_raises (hremoves.raises e hresult)⟩
        | ok =>
            cases hreplacement : entry.2.replacement with
            | some r =>
                obtain ⟨i, hawaited⟩ := (hs.ok hok).1.pongs entry hentry
                have hcall : Triple _ (do update r; return false)
                    (fun _ => Reach world heard s₀) (Fails world heard s₀) :=
                  (hupdate r (hawaited.heard r hreplacement)).bind fun _ =>
                    triple_pure fun _ hreach => hreach
                exact hcall (s.expired entry) ⟨hexpired, hsub', hless⟩
            | none =>
                by_cases hnode : entry.2.node = node
                · simp only [if_pos hnode]
                  exact hexpired
                · simp only [if_neg hnode]
                  refine ih hkeys (s.expired entry) ⟨hexpired, hsub', hless.le, ?_⟩
                  intro other hother
                  apply List.mem_filter.mpr ⟨hrest hother, ?_⟩
                  rw [decide_eq_true_eq]
                  -- the pongs still to be looked at have other ids
                  rintro heq
                  exact hkey (heq ▸ List.mem_map_of_mem hother)
      · simp only [if_neg htime]
        exact ih hkeys _ ⟨hs.tail (.answer s), hsub, hlength, hrest⟩

include hok hself in
/-- `update` calls itself for the replacement of a node that has not answered. Each call
forgets a pong, so their number bounds the depth. -/
theorem updateWithin_changes {fuel : ℕ} {pingid : Option Bytes}
    (hheard : node ≠ s₀.thisNode →
      (∀ id ∈ pingid, id ∈ s₀.expectedPongs.map Prod.fst) → heard node) :
    Triple
      (fun s => Reach world heard s₀ s ∧ s.expectedPongs ⊆ s₀.expectedPongs ∧
        s.expectedPongs.length < fuel)
      (updateWithin world fuel node pingid) (fun _ => Reach world heard s₀)
      (Fails world heard s₀) := by
  induction fuel generalizing node pingid with
  | zero => exact fun s hs => absurd hs.2.2 (Nat.not_lt_zero _)
  | succ fuel ih =>
      apply triple_get_bind
      rintro s ⟨hs, hsub, hlength⟩
      split
      next =>
        rintro _ rfl
        exact hs
      next hthis =>
        split
        next =>
          rintro _ rfl
          exact hs
        next hexpected =>
          have hnode : heard node := by
            refine hheard ((hs.ok hok).2 ▸ hthis) fun id hid => ?_
            by_contra hnot
            refine hexpected ⟨id, hid, fun hmem => hnot ?_⟩
            exact List.map_subset _ hsub hmem
          have hrec : ∀ r, heard r → Triple
              (fun s => Reach world heard s₀ s ∧ s.expectedPongs ⊆ s₀.expectedPongs ∧
                s.expectedPongs.length < fuel)
              (updateWithin world fuel r none) (fun _ => Reach world heard s₀)
              (Fails world heard s₀) := fun r hr => ih fun _ _ => hr
          refine (Triple.weaken (expirePongs_changes hok hrec (hs.ok hok).1.keys) ?_
            (fun _ _ h => h) fun _ _ h => h).bind fun goesOn => ?_
          · rintro _ rfl
            exact ⟨hs, hsub, Nat.le_of_lt_succ hlength, List.Subset.refl _⟩
          · split
            next =>
              refine Triple.bind (Triple.forM fun id _ => acceptPong_changes hok id) fun _ => ?_
              refine (addOrPing_changes hok hself hnode).bind fun _ => ?_
              refine (pingReplacements_changes hok hself).bind fun _ => ?_
              exact (refreshIdleBuckets_changes).bind fun _ => pruneRequests_changes
            next => exact triple_pure fun _ hreach => hreach

include hok hself in
/-- `update` for a node that was heard from. -/
theorem update_changes {pingid : Option Bytes}
    (hheard : node ≠ s₀.thisNode →
      (∀ id ∈ pingid, id ∈ s₀.expectedPongs.map Prod.fst) → heard node) :
    Triple (· = s₀) (update world node pingid) (fun _ => Reach world heard s₀)
      (Fails world heard s₀) := by
  apply triple_get_self
  refine (updateWithin_changes hok hself hheard).weaken ?_ (fun _ _ h => h) fun _ _ h => h
  rintro _ rfl
  exact ⟨ReflTransGen.refl, List.Subset.refl _, Nat.lt_succ_self _⟩

/-! ## Messages -/

include hok hself in
/-- Starting from known nodes. -/
theorem bootstrap_changes {nodes : List Node}
    (hheard : ∀ n ∈ nodes, n ≠ s₀.thisNode → heard n) :
    Triple (· = s₀) (bootstrap world nodes) (fun _ => Reach world heard s₀)
      (Fails world heard s₀) := by
  apply triple_get_self
  have hloop : Changes world heard s₀ (forM nodes fun node =>
      if node = s₀.thisNode then return
      else do
        let _ ← addNode world node
        findNode world s₀.thisNode.id (some node)) := by
    refine Triple.forM fun node hnode => ?_
    split
    next => exact triple_pure fun _ hs => hs
    next hne =>
      refine (addNode_triple hok hself (hheard node hnode hne)).bind fun _ => ?_
      exact (findNode_changes _ _).weaken (fun _ hs => hs.1) (fun _ _ h => h) fun _ _ h => h
  exact hloop.of_reach ReflTransGen.refl

include hok hself in
/-- A ping is answered with a pong. -/
theorem recvPing_changes {remote : Node} (hheard : remote ≠ s₀.thisNode → heard remote)
    (echo : Bytes) :
    Triple (· = s₀) (recvPing world remote echo) (fun _ => Reach world heard s₀)
      (Fails world heard s₀) := by
  apply triple_get_self
  split
  next => exact triple_pure fun _ heq => heq ▸ ReflTransGen.refl
  next hne =>
    refine (update_changes hok hself fun hne _ => hheard hne).bind fun _ => ?_
    exact send_changes .pong

include hok hself in
/-- A pong counts as heard when it was awaited. -/
theorem recvPong_changes {remote : Node} (hthis : remote ≠ s₀.thisNode) {echoed : Bytes}
    (hheard : mkpingid echoed remote ∈ s₀.expectedPongs.map Prod.fst → heard remote) :
    Triple (· = s₀) (recvPong world remote echoed) (fun _ => Reach world heard s₀)
      (Fails world heard s₀) := by
  apply triple_get_self
  rw [if_neg hthis]
  exact update_changes hok hself fun _ hmem => hheard (hmem _ rfl)

include hok hself in
/-- A request is answered with the nodes that the table has nearest to its target. -/
theorem recvFindNode_changes {remote : Node} (hheard : remote ≠ s₀.thisNode → heard remote)
    (targetid : ℕ) :
    Triple (· = s₀) (recvFindNode world remote targetid)
      (fun _ s' => ∃ s, Reach world heard s₀ s ∧ s' = s.replied remote targetid)
      (Fails world heard s₀) := by
  refine (update_changes hok hself fun hne _ => hheard hne).bind fun _ => ?_
  apply triple_get_bind
  rintro s hs _ rfl
  exact ⟨_, hs, rfl⟩

theorem unknownNodes_error {t : RoutingTable} (hwf : t.Wf) {nodes : List Node} {e : Error}
    (h : unknownNodes t nodes = .error e) : TableError e := by
  induction nodes with
  | nil => exact absurd h (by simp [unknownNodes])
  | cons n nodes ih =>
      rw [unknownNodes] at h
      cases hfind : bucketByNode n t.buckets with
      | error e' =>
          rw [RoutingTable.contains, hfind] at h
          obtain rfl : e' = e := Except.error.inj h
          exact tableError_of_raises (RoutingTable.raises_of_bucketByNode hwf hfind)
      | ok place =>
          cases hrest : unknownNodes t nodes with
          | error e' =>
              rw [RoutingTable.contains, hfind, hrest] at h
              obtain rfl : e' = e := Except.error.inj h
              exact ih hrest
          | ok unknown =>
              rw [RoutingTable.contains, hfind, hrest] at h
              exact absurd h (by simp [Except.map, bind, Except.bind, pure, Except.pure])

include hok in
/-- Forwarding stops at no assertion, as the local node is not in the table. -/
theorem forwardRequest_changes (neighbours : List Node) (request : ℕ × ℕ) :
    Changes world heard s₀ (forwardRequest world neighbours request) := by
  refine (answer_changes _).bind fun time => ?_
  split
  next =>
    apply triple_get_bind
    intro s hs
    obtain ⟨hok', hthis⟩ := hs.ok hok
    have hknown : (s.routing.neighbours request.1 kBucketSize).head? ≠ some s.thisNode := by
      intro hhead
      exact hok'.wf.thisNode (hok'.wf.mem_of_mem_neighbours (List.mem_of_mem_head? hhead))
    simp only [if_neg hknown]
    have hloop : Changes world heard s₀
        (forM ((sortBy (Node.idDistance request.1) neighbours).take kFindConcurrency)
          fun closeNode =>
            if ∀ known ∈ (s.routing.neighbours request.1 kBucketSize).head?,
                closeNode.idDistance request.1 < known.idDistance request.1 then
              send (.findNode closeNode request.1)
            else return) := by
      refine Triple.forM fun closeNode _ => ?_
      split
      next => exact send_changes .findNode
      next => exact triple_pure fun _ hs => hs
    exact hloop.of_reach hs
  next => exact triple_pure fun _ hs => hs

include hok in
/-- The neighbours that are not known are asked and pinged. -/
theorem recvNeighbours_changes (neighbours : List Node) :
    Triple (· = s₀) (recvNeighbours world neighbours) (fun _ => Reach world heard s₀)
      (Fails world heard s₀) := by
  apply triple_get_self
  have hlookup : Triple (· = s₀)
      (Effects.ofExcept (unknownNodes s₀.routing (neighbours.filter fun n => n ≠ s₀.thisNode)))
      (fun _ => Reach world heard s₀) (Fails world heard s₀) := by
    apply triple_ofExcept
    · rintro _ s _ hs
      rw [hs]
      exact ReflTransGen.refl
    · rintro e s he hs
      rw [hs]
      exact ⟨ReflTransGen.refl, unknownNodes_error hok.wf he⟩
  refine hlookup.bind fun unknown => ?_
  have hforward : Changes world heard s₀ (forM s₀.findRequests (forwardRequest world unknown)) :=
    Triple.forM fun request _ => forwardRequest_changes hok unknown request
  refine Triple.bind hforward fun _ => Triple.forM fun node _ => ?_
  split
  next hne => exact ping_changes hok hne (by simp)
  next => exact triple_pure fun _ hs => hs

end Actions

end KademliaProtocol

end Hgfrr.Kademlia
