import Hgfrr.Kademlia.Adding
import Hgfrr.Model.KademliaProtocol

/-!
# What a message does, one change at a time

Every handler is a sequence of a few kinds of changes of the state. Each change
keeps what is said of a state between two messages: the table is well formed, it
and the caches hold only nodes that were heard of, and every pong that is waited
for answers a ping that was sent.
-/

namespace Hgfrr.Kademlia

open Effects

/-- A ping id tells the echo and the node. -/
theorem mkpingid_inj {echo echo' : Bytes} {node node' : Node}
    (h : KademliaProtocol.mkpingid echo node = KademliaProtocol.mkpingid echo' node') :
    echo = echo' ∧ node = node' := by
  have hlength : node.pubkey.length = node'.pubkey.length :=
    node.length_pubkey.trans node'.length_pubkey.symm
  obtain ⟨hecho, hkey⟩ := List.append_inj' h hlength
  cases node
  cases node'
  exact ⟨hecho, by simpa using hkey⟩

namespace KademliaProtocol

variable [Sha3] (world : World)

/-! ## The changes -/

/-- A ping is sent and its pong expected. -/
def pinged (s : KademliaProtocol) (node : Node) (replacement : Option Node) : KademliaProtocol :=
  let echo := world.echo s.answers
  let expected : ExpectedPong :=
    ⟨world.time (s.answers + 1) + kRequestTimeout, node, replacement⟩
  { s with
    answers := s.answers + 2
    sent := s.sent ++ [.ping node echo]
    expectedPongs := AssocMap.assign (mkpingid echo node) expected s.expectedPongs }

def added (s : KademliaProtocol) (node : Node) : KademliaProtocol :=
  { s with
    answers := s.answers + 1
    routing := (s.routing.addNode node (world.time s.answers) (kIdSize + 1)).2 }

def cached (s : KademliaProtocol) (node : Node) : KademliaProtocol :=
  { s with routing := (s.routing.addReplacement node).2 }

def forgotten (s : KademliaProtocol) (pingid : Bytes) : KademliaProtocol :=
  { s with expectedPongs := s.expectedPongs.filter fun entry => entry.1 ≠ pingid }

/-- A node whose ping timed out is removed. -/
def expired (s : KademliaProtocol) (entry : Bytes × ExpectedPong) : KademliaProtocol :=
  { s with
    answers := s.answers + 1
    expectedPongs := s.expectedPongs.filter fun other => other.1 ≠ entry.1
    routing := (s.routing.removeNode entry.2.node).2 }

/-- Messages that neither start nor end a conversation. -/
inductive Passing : Sent → Prop
  | pong {node : Node} {echo : Bytes} : Passing (.pong node echo)
  | findNode {node : Node} {targetid : ℕ} : Passing (.findNode node targetid)

/-- The changes while a message is handled. The pongs in `old` were expected
before it, and `heard` are the nodes that may come into the table. -/
inductive Change (old : List (Bytes × ExpectedPong)) (heard : Node → Prop) :
    KademliaProtocol → KademliaProtocol → Prop
  | answer (s : KademliaProtocol) : Change old heard s { s with answers := s.answers + 1 }
  | send (s : KademliaProtocol) {message : Sent} (h : Passing message) :
      Change old heard s { s with sent := s.sent ++ [message] }
  | ping (s : KademliaProtocol) {node : Node} {replacement : Option Node}
      (hheard : ∀ r ∈ replacement, heard r) : Change old heard s (s.pinged world node replacement)
  | requests (s : KademliaProtocol) (requests : List (ℕ × ℕ)) :
      Change old heard s { s with findRequests := requests }
  | add (s : KademliaProtocol) {node : Node} (hheard : heard node) :
      Change old heard s (s.added world node)
  | cache (s : KademliaProtocol) {node : Node} (hheard : heard node) :
      Change old heard s (s.cached node)
  | forget (s : KademliaProtocol) (pingid : Bytes) : Change old heard s (s.forgotten pingid)
  | expire (s : KademliaProtocol) {entry : Bytes × ExpectedPong} (hold : entry ∈ old)
      (htime : entry.2.timeout < world.time s.answers) : Change old heard s (s.expired entry)

/-! ## States between messages -/

/-- A ping was sent to the node, whose echo was the `i`-th answer of the world. The time
for the pong is measured from the answer after it, which was the clock's. -/
structure Awaited (heard : Node → Prop) (s : KademliaProtocol) (entry : Bytes × ExpectedPong)
    (i : ℕ) : Prop where
  pingid : entry.1 = mkpingid (world.echo i) entry.2.node
  sent : .ping entry.2.node (world.echo i) ∈ s.sent
  answered : i + 1 < s.answers
  timeout : entry.2.timeout = world.time (i + 1) + kRequestTimeout
  heard : ∀ r ∈ entry.2.replacement, heard r

structure Ok (heard : Node → Prop) (s : KademliaProtocol) : Prop where
  wf : s.routing.Wf
  nodes : ∀ n ∈ s.routing.nodes, heard n
  replacements : ∀ n ∈ s.routing.replacements, heard n
  keys : (s.expectedPongs.map Prod.fst).Nodup
  pongs : ∀ entry ∈ s.expectedPongs, ∃ i, Awaited world heard s entry i

variable {world} {old : List (Bytes × ExpectedPong)} {heard heard' : Node → Prop}
  {s s' : KademliaProtocol} {entry : Bytes × ExpectedPong} {i : ℕ}

omit [Sha3] in
/-- A pong that is awaited stays so while messages are sent and the clock is read. -/
theorem Awaited.mono (h : Awaited world heard s entry i) (hsent : s.sent ⊆ s'.sent)
    (hanswers : s.answers ≤ s'.answers) : Awaited world heard s' entry i :=
  ⟨h.pingid, hsent h.sent, h.answered.trans_le hanswers, h.timeout, h.heard⟩

/-- More nodes may have been heard of. -/
theorem Ok.imp (h : Ok world heard s) (himp : ∀ n, heard n → heard' n) : Ok world heard' s where
  wf := h.wf
  nodes := fun n hn => himp n (h.nodes n hn)
  replacements := fun n hn => himp n (h.replacements n hn)
  keys := h.keys
  pongs := by
    intro entry hentry
    obtain ⟨i, hawaited⟩ := h.pongs entry hentry
    exact ⟨i, hawaited.pingid, hawaited.sent, hawaited.answered, hawaited.timeout,
      fun r hr => himp r (hawaited.heard r hr)⟩

/-- The table does not matter to the pongs that are expected. -/
theorem Ok.of_pongs (h : Ok world heard s) (hwf : s'.routing.Wf)
    (hnodes : ∀ n ∈ s'.routing.nodes, heard n)
    (hreplacements : ∀ n ∈ s'.routing.replacements, heard n)
    (hpongs : s'.expectedPongs.Sublist s.expectedPongs) (hsent : s.sent ⊆ s'.sent)
    (hanswers : s.answers ≤ s'.answers) : Ok world heard s' where
  wf := hwf
  nodes := hnodes
  replacements := hreplacements
  keys := h.keys.sublist (hpongs.map Prod.fst)
  pongs := by
    intro entry hentry
    obtain ⟨i, hawaited⟩ := h.pongs entry (hpongs.subset hentry)
    exact ⟨i, hawaited.mono hsent hanswers⟩

theorem Change.ok (h : Change world old heard s s') (hok : Ok world heard s) :
    Ok world heard s' ∧ s'.thisNode = s.thisNode := by
  cases h with
  | answer =>
      exact ⟨hok.of_pongs hok.wf hok.nodes hok.replacements (List.Sublist.refl _)
        (List.Subset.refl _) (Nat.le_succ _), rfl⟩
  | send h =>
      exact ⟨hok.of_pongs hok.wf hok.nodes hok.replacements (List.Sublist.refl _)
        (List.subset_append_left _ _) le_rfl, rfl⟩
  | @ping node replacement hheard =>
      refine ⟨⟨hok.wf, hok.nodes, hok.replacements, AssocMap.nodup_assign hok.keys, ?_⟩, rfl⟩
      intro entry hentry
      rcases AssocMap.mem_assign hentry with rfl | hmem
      -- the new ping is awaited, and the older ones still are
      · exact ⟨s.answers, rfl, List.mem_append_right _ (List.mem_singleton.mpr rfl),
          Nat.lt_succ_self _, rfl, hheard⟩
      · obtain ⟨i, hawaited⟩ := hok.pongs entry hmem
        exact ⟨i, hawaited.mono (List.subset_append_left _ _) (Nat.le_add_right _ 2)⟩
  | requests =>
      exact ⟨hok.of_pongs hok.wf hok.nodes hok.replacements (List.Sublist.refl _)
        (List.Subset.refl _) le_rfl, rfl⟩
  | @add node hheard =>
      have hgrows := RoutingTable.addNode_grows hok.wf node (world.time s.answers)
      refine ⟨hok.of_pongs hgrows.wf ?_ ?_ (List.Sublist.refl _) (List.Subset.refl _)
        (Nat.le_succ _), hgrows.thisNode⟩
      · intro n hn
        rcases hgrows.eq_or_mem n hn with rfl | hmem
        · exact hheard
        · exact hok.nodes n hmem
      · exact fun n hn => hok.replacements n (hgrows.replacements.mem_iff.mp hn)
  | @cache node hheard =>
      have hcaches := RoutingTable.addReplacement_caches hok.wf node
      refine ⟨hok.of_pongs hcaches.wf ?_ ?_ (List.Sublist.refl _) (List.Subset.refl _) le_rfl,
        hcaches.thisNode⟩
      · exact fun n hn => hok.nodes n (hcaches.nodes.mem_iff.mp hn)
      · intro n hn
        rcases hcaches.replacements n hn with rfl | hmem
        · exact hheard
        · exact hok.replacements n hmem
  | forget pingid =>
      exact ⟨hok.of_pongs hok.wf hok.nodes hok.replacements List.filter_sublist
        (List.Subset.refl _) le_rfl, rfl⟩
  | @expire entry hold htime =>
      have hremoves := RoutingTable.removeNode_removes hok.wf entry.2.node
      refine ⟨hok.of_pongs hremoves.wf ?_ ?_ List.filter_sublist (List.Subset.refl _)
        (Nat.le_succ _), hremoves.thisNode⟩
      · exact fun n hn => hok.nodes n (hremoves.mem_nodes_iff.2 hn)
      · exact fun n hn => hok.replacements n (hremoves.replacements.mem_iff.mp hn)

end KademliaProtocol

end Hgfrr.Kademlia
