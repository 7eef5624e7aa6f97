import Hgfrr.Foundation.Dyadic
import Hgfrr.Foundation.SortedBy
import Hgfrr.Model.Bytes

/-!
# Nodes, buckets and the routing table of node discovery

A bucket that the table looks up is changed where it stands, so a bucket is found
together with those before and after it. A call that raises leaves what it has
done before. The clock is read by the caller.
-/

namespace Hgfrr.Kademlia

open SortedBy

/-- Bits per hop. -/
def kB : ℕ := 8

def kBucketSize : ℕ := 16

def kIdSize : ℕ := 256

def kMaxNodeId : ℕ := 2 ^ kIdSize - 1

/-- Idle time of a bucket in milliseconds before a node is looked up in it. -/
def kIdleBucketRefreshInterval : ℕ := 3600 * 1000

/-- What is raised: the failed assertions of `RoutingTable.add_node`,
`RoutingTable.bucket_by_node`, `KademliaProtocol.ping`,
`KademliaProtocol.recv_pong` and `KademliaProtocol.recv_neighbours`, the plain
exceptions of `RoutingTable.bucket_by_node` and `KBucket.depth`, and the end of
the stack. -/
inductive Error
  | addsThisNode
  | outOfBucket
  | pingsThisNode
  | pongFromThisNode
  | knowsThisNode
  | noBucket
  | noDepth
  | recursionError
deriving DecidableEq, Repr

/-- Nodes are equal if their public keys are. -/
structure Node where
  pubkey : Bytes
  length_pubkey : pubkey.length = 64
deriving DecidableEq

variable [Sha3]

namespace Node

def id (node : Node) : ℕ := bigEndianToInt (Sha3.sha3 node.pubkey)

def idDistance (id : ℕ) (node : Node) : ℕ := node.id ^^^ id

theorem id_le (node : Node) : node.id ≤ kMaxNodeId := by
  have h := bigEndianToInt_lt (Sha3.sha3 node.pubkey)
  rw [Sha3.length_sha3, show (256 : ℕ) ^ 32 = 2 ^ 256 by norm_num] at h
  exact Nat.le_sub_one_of_lt h

end Node

/-! ## Buckets -/

/-- `stop` is the field `end`. -/
structure KBucket where
  start : ℕ
  stop : ℕ
  nodes : List Node
  replacementCache : List Node
  lastUpdated : ℕ
deriving DecidableEq

namespace KBucket

variable (b : KBucket) (node : Node) (now : ℕ)

/-- The constructor. -/
def new (now start stop : ℕ) : KBucket := ⟨start, stop, [], [], now⟩

def midpoint : ℕ := b.start + (b.stop - b.start) / 2

def idDistance (id : ℕ) : ℕ := b.midpoint ^^^ id

def nodesByIdDistance (id : ℕ) : List Node := sortBy (Node.idDistance id) b.nodes

def inRange : Prop := b.start ≤ node.id ∧ node.id ≤ b.stop

instance : Decidable (b.inRange node) := inferInstanceAs (Decidable (_ ∧ _))

def isFull : Prop := b.nodes.length = kBucketSize

instance : Decidable b.isFull := inferInstanceAs (Decidable (_ = _))

def removeNode : KBucket := { b with nodes := b.nodes.erase node }

/-- The bucket and, if it is full, its head. -/
def addNode : KBucket × Option Node :=
  let b := { b with lastUpdated := now }
  if node ∈ b.nodes then ({ b with nodes := b.nodes.erase node ++ [node] }, none)
  else if b.nodes.length < kBucketSize then ({ b with nodes := b.nodes ++ [node] }, none)
  else (b, b.nodes.head?)

/-- `to_binary`. -/
def toBinary (x : ℕ) : List Char := Dyadic.binary kIdSize x

/-- The number of leading bits that all nodes share. -/
def depth : Except Error ℕ :=
  if b.nodes.length < 2 then .ok kIdSize
  else
    let bits := b.nodes.map fun n => toBinary n.id
    match (List.range kIdSize).find? fun i => (bits.map (·.take i)).dedup.length ≠ 1 with
    | some i => .ok (i - 1)
    | none => .error .noDepth

/-- Put a node into the half it belongs to. -/
def distribute (splitid : ℕ) (halves : KBucket × KBucket) (node : Node) : KBucket × KBucket :=
  if node.id ≤ splitid then ((halves.1.addNode node now).1, halves.2)
  else (halves.1, (halves.2.addNode node now).1)

def distributeReplacement (splitid : ℕ) (halves : KBucket × KBucket) (node : Node) :
    KBucket × KBucket :=
  if node.id ≤ splitid then
    ({ halves.1 with replacementCache := halves.1.replacementCache ++ [node] }, halves.2)
  else (halves.1, { halves.2 with replacementCache := halves.2.replacementCache ++ [node] })

def split : KBucket × KBucket :=
  let splitid := b.midpoint
  let halves := (new now b.start splitid, new now (splitid + 1) b.stop)
  b.replacementCache.foldl (distributeReplacement splitid)
    (b.nodes.foldl (distribute now splitid) halves)

end KBucket

/-! ## The table -/

structure RoutingTable where
  thisNode : Node
  buckets : List KBucket
deriving DecidableEq

/-- A bucket of the table with those before and after it. -/
structure Place where
  before : List KBucket
  bucket : KBucket
  after : List KBucket

/-- The buckets with others at this place. -/
def Place.put (place : Place) (buckets : List KBucket) : List KBucket :=
  place.before ++ buckets ++ place.after

/-- `bucket_by_node`. The end of a bucket is not compared as one of its ids. -/
def bucketByNode (node : Node) : List KBucket → Except Error Place
  | [] => .error .noBucket
  | b :: bs =>
      if node.id < b.stop then
        if b.start ≤ node.id then .ok ⟨[], b, bs⟩ else .error .outOfBucket
      else (bucketByNode node bs).map fun place => { place with before := b :: place.before }

namespace RoutingTable

variable (t : RoutingTable) (node : Node) (now : ℕ)

/-- The constructor. -/
def new (node : Node) (now : ℕ) : RoutingTable := ⟨node, [KBucket.new now 0 kMaxNodeId]⟩

/-- The nodes as they are iterated over. -/
def nodes : List Node := t.buckets.flatMap KBucket.nodes

def idleBuckets : List KBucket :=
  t.buckets.filter fun b => b.lastUpdated + kIdleBucketRefreshInterval < now

def notFullBuckets : List KBucket := t.buckets.filter fun b => b.nodes.length < kBucketSize

def removeNode : Except Error Unit × RoutingTable :=
  match bucketByNode node t.buckets with
  | .error e => (.error e, t)
  | .ok place => (.ok (), { t with buckets := place.put [place.bucket.removeNode node] })

/-- Append a node to the replacement cache of its bucket. -/
def addReplacement : Except Error Unit × RoutingTable :=
  match bucketByNode node t.buckets with
  | .error e => (.error e, t)
  | .ok place =>
      let b := place.bucket
      (.ok (), { t with
        buckets := place.put [{ b with replacementCache := b.replacementCache ++ [node] }] })

/-- Whether a bucket in which a node was not added is split. -/
def splits (b : KBucket) (depth : ℕ) : Prop :=
  b.inRange t.thisNode ∨ (depth % kB ≠ 0 ∧ depth ≠ kIdSize)

instance (b : KBucket) (depth : ℕ) : Decidable (t.splits b depth) :=
  inferInstanceAs (Decidable (_ ∨ _))

/-- `add_node` with a bound on the recursion: the eviction candidate, if the node
was not added. -/
def addNode : ℕ → RoutingTable → Except Error (Option Node) × RoutingTable
  | 0, t => (.error .recursionError, t)
  | fuel + 1, t =>
      if node = t.thisNode then (.error .addsThisNode, t)
      else
        match bucketByNode node t.buckets with
        | .error e => (.error e, t)
        | .ok place =>
            let (b, candidate) := place.bucket.addNode node now
            let t' := { t with buckets := place.put [b] }
            match candidate with
            | none => (.ok none, t')
            | some candidate =>
                match b.depth with
                | .error e => (.error e, t')
                | .ok depth =>
                    if t.splits b depth then
                      let (lower, upper) := b.split now
                      addNode fuel { t with buckets := place.put [lower, upper] }
                    else (.ok (some candidate), t')

/-- `node in table`. -/
def contains : Except Error Bool :=
  (bucketByNode node t.buckets).map fun place => decide (node ∈ place.bucket.nodes)

def bucketsByIdDistance (id : ℕ) : List KBucket := sortBy (KBucket.idDistance · id) t.buckets

/-- Append nodes until there are `limit`, and no more of these. -/
def collect (limit : ℕ) (nodes : List Node) : List Node → List Node
  | [] => nodes
  | n :: rest =>
      if (nodes ++ [n]).length = limit then nodes ++ [n] else collect limit (nodes ++ [n]) rest

/-- `neighbours`. Leaving the inner loop does not leave the outer one. -/
def neighbours (id k : ℕ) : List Node :=
  let nodes := (t.bucketsByIdDistance id).foldl
    (fun nodes b => collect (k * 2) nodes (b.nodesByIdDistance id)) []
  (sortBy (Node.idDistance id) nodes).take k

def neighboursWithinDistance (id distance : ℕ) : List Node :=
  sortBy (Node.idDistance id) (t.nodes.filter fun n => n.idDistance id ≤ distance)

end RoutingTable

end Hgfrr.Kademlia
