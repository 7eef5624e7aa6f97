import Hgfrr.Model.Evaluation

/-!
# The node lists that experiments start from

In every round the server sends a configuration and the pages of its table. The
pages cover the table, and only the last of them says so. A client that gets the
configuration first and the last page last, and has read no other nodes before,
starts the experiment on exactly the table of the round.
-/

namespace Hgfrr

namespace EvalServer

/-- The row of the table for a registered node. -/
def tableRow (entry : ℕ × NodeRecord) : ℕ × Str × ℕ :=
  (entry.1, entry.2.ip, entry.2.broadcastPort)

variable {size i : ℕ} {page : List (ℕ × Str × ℕ)} {db : NodeDatabase}

/-- The pages hold the rows of the database in order. -/
theorem flatMap_tablePages (hsize : i + db.length = size) (h : db = [] → page = []) :
    (tablePages size i page db).flatMap TablePage.entries = page ++ db.map tableRow := by
  induction db generalizing i page with
  | nil => simp [tablePages, h rfl]
  | cons entry db ih =>
      rw [List.length_cons] at hsize
      unfold tablePages
      dsimp only
      split
      next =>
        rw [List.flatMap_cons, ih (by omega) fun _ => rfl]
        simp [tableRow]
      next hmore =>
        rw [ih (by omega) fun hnil => absurd (Or.inr (by simp [← hsize, hnil])) hmore]
        simp [tableRow]

theorem tableSize_eq (i : ℕ) :
    (if i + 1 > tablePageSize then
      if (i + 1) % tablePageSize = 0 then tablePageSize else (i + 1) % tablePageSize
    else i + 1) = i % tablePageSize + 1 := by
  split_ifs <;> simp only [tablePageSize] at * <;> omega

/-- A page is as long as it says, and neither empty nor too long. -/
theorem tableSize_of_mem_tablePages (hsize : i + db.length = size)
    (hpage : page.length = i % tablePageSize) :
    ∀ sent ∈ tablePages size i page db, sent.tableSize = sent.entries.length ∧
      0 < sent.entries.length ∧ sent.entries.length ≤ tablePageSize := by
  induction db generalizing i page with
  | nil => simp [tablePages]
  | cons entry db ih =>
      rw [List.length_cons] at hsize
      unfold tablePages
      dsimp only
      rw [tableSize_eq]
      split
      next hflush =>
        have hlength : i % tablePageSize < tablePageSize := Nat.mod_lt _ (by decide)
        rw [List.forall_mem_cons]
        refine ⟨by simp [hpage]; omega, ?_⟩
        rcases hflush with hfull | hlast
        · exact ih (by omega) hfull.symm
        · obtain rfl := List.eq_nil_of_length_eq_zero (by omega : db.length = 0)
          simp [tablePages]
      next hmore =>
        refine ih (by omega) ?_
        simp only [List.length_append, List.length_singleton, hpage, tablePageSize] at hmore ⊢
        omega

/-- The last page is the only one that says so. -/
theorem isEnd_of_tablePages (page : List (ℕ × Str × ℕ)) (hsize : i + db.length = size)
    (hne : db ≠ []) :
    ∃ front last, tablePages size i page db = front ++ [last] ∧ last.isEnd = true ∧
      ∀ sent ∈ front, sent.isEnd = false := by
  induction db generalizing i page with
  | nil => exact absurd rfl hne
  | cons entry db ih =>
      rw [List.length_cons] at hsize
      unfold tablePages
      dsimp only
      rcases db with _ | ⟨next, db⟩
      · rw [if_pos (Or.inr (by simpa using hsize))]
        exact ⟨[], _, rfl, by simp [← hsize], by simp⟩
      · split
        next =>
          obtain ⟨front, last, hpages, hlast, hfront⟩ :=
            @ih (i + 1) [] (by omega) (List.cons_ne_nil _ _)
          refine ⟨_ :: front, last, by rw [hpages]; rfl, hlast, ?_⟩
          rw [List.forall_mem_cons]
          refine ⟨?_, hfront⟩
          simp only [List.length_cons] at hsize
          simp only [ge_iff_le, decide_eq_false_iff_not, not_le]
          omega
        next => exact ih _ (by omega) (List.cons_ne_nil _ _)

end EvalServer

/-! ## Rounds -/

/-- One round: the server sends a configuration and then its table. -/
structure Round where
  config : EvalConfig
  db : NodeDatabase
  ids_nodup : (db.map Prod.fst).Nodup
  nonempty : 0 < config.topology.numNodesInDist

namespace Round

variable (round : Round)

/-- The id of a node, as this round's configuration makes it of the number. -/
def nodeId (number : ℕ) : Str := convertIDIntToString number round.config.topology

/-- The server table, by ids. -/
def table : NodeList := round.db.map fun entry =>
  (round.nodeId entry.1, entry.2.ip, entry.2.broadcastPort)

def pages : List TablePage := EvalServer.tablePages round.db.length 0 [] round.db

/-- What the server sends to one address. -/
def sentTo (ip : Str) (port : ℕ) : List BootstrapMessage :=
  ((EvalServer.handleConfig round.config round.db ++ EvalServer.handleTable round.db).filter
    fun mailing => mailing.ip = ip ∧ mailing.port = port).map Mailing.msg

end Round

/-- The messages of a round as they arrive at one address: none is lost, and any
order is possible. -/
structure Delivery (ip : Str) (port : ℕ) where
  round : Round
  messages : List BootstrapMessage
  perm : messages.Perm (round.sentTo ip port)

namespace EvalClient

/-- Receive messages, and list what is built. -/
def receiveAll (client : EvalClient) :
    List BootstrapMessage → Except Fault (EvalClient × List Evaluation)
  | [] => .ok (client, [])
  | msg :: messages => do
      let (client, built) ← client.receive msg
      let (client, evaluations) ← client.receiveAll messages
      return (client, built.toList ++ evaluations)

/-- Go through rounds, and list what is built with the round it is built in. -/
def runRounds {ip : Str} {port : ℕ} (client : EvalClient) :
    List (Delivery ip port) → Except Fault (EvalClient × List (Round × Evaluation))
  | [] => .ok (client, [])
  | delivery :: deliveries => do
      let (client, evaluations) ← client.receiveAll delivery.messages
      let (client, later) ← client.runRounds deliveries
      return (client, (evaluations.map fun evaluation => (delivery.round, evaluation)) ++ later)

end EvalClient

/-! ## Collecting the pages of a round -/

namespace Round

variable {round : Round}

/-- The entries of a page, by ids. -/
def rows (round : Round) (page : TablePage) : NodeList :=
  page.entries.map fun entry => (round.nodeId entry.1, entry.2)

/-- The pages make up the table. -/
theorem flatMap_rows : round.pages.flatMap round.rows = round.table := by
  have hentries := EvalServer.flatMap_tablePages (Nat.zero_add round.db.length) fun _ => rfl
  calc round.pages.flatMap round.rows
      = (round.pages.flatMap TablePage.entries).map
          (fun entry => (round.nodeId entry.1, entry.2)) := by rw [List.map_flatMap]; rfl
    _ = (round.db.map EvalServer.tableRow).map (fun entry => (round.nodeId entry.1, entry.2)) := by
        rw [pages, hentries, List.nil_append]
    _ = round.table := by rw [List.map_map]; rfl

theorem mem_table_of_mem_rows {page : TablePage} (hpage : page ∈ round.pages)
    {row : Str × Str × ℕ} (hrow : row ∈ round.rows page) : row ∈ round.table :=
  flatMap_rows ▸ List.mem_flatMap.mpr ⟨page, hpage, hrow⟩

theorem tableSize_eq {page : TablePage} (hpage : page ∈ round.pages) :
    page.tableSize = page.entries.length :=
  (EvalServer.tableSize_of_mem_tablePages (Nat.zero_add _) rfl page hpage).1

/-- A round sends its configuration and its pages. -/
theorem mem_sentTo {ip : Str} {port : ℕ} {msg : BootstrapMessage}
    (h : msg ∈ round.sentTo ip port) :
    (∃ nodeId, msg = .config nodeId round.config) ∨ ∃ page ∈ round.pages, msg = .table page := by
  obtain ⟨mailing, hmailing, rfl⟩ := List.mem_map.mp h
  rcases List.mem_append.mp (List.mem_filter.mp hmailing).1 with hconfig | htable
  · obtain ⟨entry, -, rfl⟩ := List.mem_map.mp hconfig
    exact Or.inl ⟨entry.1, rfl⟩
  · obtain ⟨page, hpage, hmailing⟩ := List.mem_flatMap.mp htable
    obtain ⟨entry, -, rfl⟩ := List.mem_map.mp hmailing
    exact Or.inr ⟨page, hpage, rfl⟩

/-- Rows of a table without repeated ids are determined by their ids. -/
theorem eq_of_mem_table (hdistinct : (round.table.map Prod.fst).Nodup) {row other : Str × Str × ℕ}
    (hrow : row ∈ round.table) (hother : other ∈ round.table) (heq : row.1 = other.1) :
    row = other :=
  List.inj_on_of_nodup_map hdistinct hrow hother heq

end Round

namespace EvalClient

/-- The nodes read so far. -/
def nodes (client : EvalClient) : NodeList := client.nodeList.getD []

variable {client : EvalClient} {round : Round}

theorem nodes_receiveConfig (nodeId : ℕ) (config : EvalConfig) :
    (client.receiveConfig nodeId config).nodes = client.nodes := by
  unfold receiveConfig nodes
  cases client.evalConfig with
  | none => rfl
  | some previous => cases hprevious : previous.2.evalType <;> simp [hprevious]

theorem evalConfig_receiveConfig (nodeId : ℕ) (config : EvalConfig) :
    (client.receiveConfig nodeId config).evalConfig =
      some (convertIDIntToString nodeId config.topology, config) := rfl

/-- What a page of the round does to a client that has the configuration. -/
theorem receiveTable_of_mem {page : TablePage} (hpage : page ∈ round.pages) {strNodeId : Str}
    (hconfig : client.evalConfig = some (strNodeId, round.config)) :
    ∃ client' built, client.receiveTable page = .ok (client', built) ∧
      client'.evalConfig = client.evalConfig ∧
      client'.nodes = AssocMap.assignAll (round.rows page) client.nodes ∧
      ∀ evaluation ∈ built, page.isEnd = true ∧ evaluation.nodeList = client'.nodes := by
  have hread : readEntries round.config.topology page client.nodes =
      .ok (AssocMap.assignAll (round.rows page) client.nodes) := by
    rw [readEntries, if_neg (by rw [Round.tableSize_eq hpage]; exact lt_irrefl _),
      Round.tableSize_eq hpage, List.take_length, AssocMap.assignAll, Round.rows,
      List.foldl_map]
    rfl
  have hnodes : client.nodeList.getD [] = client.nodes := rfl
  simp only [receiveTable, hconfig, hnodes, hread, bind, Except.bind]
  cases hend : page.isEnd with
  | false => exact ⟨_, none, rfl, rfl, rfl, by simp⟩
  | true =>
      cases round.config.evalType with
      | hgfrr => exact ⟨_, some _, rfl, rfl, rfl, by simp [nodes]⟩
      | kademlia => exact ⟨_, some _, rfl, rfl, rfl, by simp [nodes]⟩

end EvalClient

/-- A client in a round, when the messages `seen` have arrived. -/
structure Collecting (round : Round) (seen : List BootstrapMessage) (client : EvalClient) :
    Prop where
  config : (∃ nodeId, .config nodeId round.config ∈ seen) →
    ∃ strNodeId, client.evalConfig = some (strNodeId, round.config)
  within : ∀ text address, client.nodes.lookup text = some address →
    text ∈ round.table.map Prod.fst
  pages : ∀ page, .table page ∈ seen → page ∈ round.pages
  read : ∀ page, .table page ∈ seen → ∀ row ∈ round.rows page,
    client.nodes.lookup row.1 = some row.2

namespace Collecting

variable {round : Round} {seen : List BootstrapMessage} {client : EvalClient}

/-- When all the pages have been read, the nodes are those of the table. -/
theorem complete (h : Collecting round seen client)
    (hseen : ∀ page ∈ round.pages, .table page ∈ seen) (text : Str) (address : Str × ℕ) :
    client.nodes.lookup text = some address ↔ (text, address) ∈ round.table := by
  have hread : ∀ row ∈ round.table, client.nodes.lookup row.1 = some row.2 := by
    intro row hrow
    rw [← Round.flatMap_rows] at hrow
    obtain ⟨page, hpage, hrow⟩ := List.mem_flatMap.mp hrow
    exact h.read page (hseen page hpage) row hrow
  constructor
  · intro hlookup
    obtain ⟨row, hrow, rfl⟩ := List.mem_map.mp (h.within text address hlookup)
    rw [hread row hrow, Option.some.injEq] at hlookup
    exact hlookup ▸ hrow
  · exact fun hmem => hread _ hmem

theorem receiveConfig (h : Collecting round seen client) (nodeId : ℕ) :
    Collecting round (seen ++ [.config nodeId round.config])
      (client.receiveConfig nodeId round.config) where
  config := fun _ => ⟨_, client.evalConfig_receiveConfig nodeId round.config⟩
  within := by
    rw [EvalClient.nodes_receiveConfig]
    exact h.within
  pages := fun page hpage => h.pages page (by simpa using hpage)
  read := by
    rw [EvalClient.nodes_receiveConfig]
    intro page hpage
    exact h.read page (by simpa using hpage)

theorem receiveTable (h : Collecting round seen client)
    (hdistinct : (round.table.map Prod.fst).Nodup) {page : TablePage} (hpage : page ∈ round.pages)
    {client' : EvalClient} (hconfig : client'.evalConfig = client.evalConfig)
    (hnodes : client'.nodes = AssocMap.assignAll (round.rows page) client.nodes) :
    Collecting round (seen ++ [.table page]) client' where
  config := by
    intro hmem
    rw [hconfig]
    exact h.config (by simpa using hmem)
  within := by
    intro text address hlookup
    rw [hnodes] at hlookup
    rcases AssocMap.eq_or_of_lookup_assignAll hlookup with hrow | hlookup
    · exact List.mem_map_of_mem (Round.mem_table_of_mem_rows hpage hrow)
    · exact h.within text address hlookup
  pages := by
    intro other hother
    rcases List.mem_append.mp hother with hseen | hnew
    · exact h.pages other hseen
    · obtain rfl : other = page := by simpa using hnew
      exact hpage
  read := by
    intro other hother row hrow
    rw [hnodes]
    have hmem : row ∈ round.table := by
      rcases List.mem_append.mp hother with hseen | hnew
      · exact Round.mem_table_of_mem_rows (h.pages other hseen) hrow
      · obtain rfl : other = page := by simpa using hnew
        exact Round.mem_table_of_mem_rows hpage hrow
    apply AssocMap.lookup_assignAll
    · intro entry hentry heq
      exact congrArg Prod.snd (Round.eq_of_mem_table hdistinct
        (Round.mem_table_of_mem_rows hpage hentry) hmem heq)
    · rcases List.mem_append.mp hother with hseen | hnew
      · exact Or.inl (h.read other hseen row hrow)
      · obtain rfl : other = page := by simpa using hnew
        exact Or.inr hrow

/-- A round goes well from any client that has read no nodes of other tables, if
pages arrive after the configuration and an end page after all pages. -/
theorem receiveAll (h : Collecting round seen client)
    (hdistinct : (round.table.map Prod.fst).Nodup) {messages : List BootstrapMessage}
    (hkinds : ∀ msg ∈ messages, (∃ nodeId, msg = .config nodeId round.config) ∨
      ∃ page ∈ round.pages, msg = .table page)
    (hconfigured : ∀ front page back, messages = front ++ .table page :: back →
      ∃ nodeId, .config nodeId round.config ∈ seen ++ front)
    (hcomplete : ∀ front page back, messages = front ++ .table page :: back → page.isEnd = true →
      ∀ other ∈ round.pages, other = page ∨ .table other ∈ seen ++ front) :
    ∃ client' evaluations, client.receiveAll messages = .ok (client', evaluations) ∧
      Collecting round (seen ++ messages) client' ∧
      ∀ evaluation ∈ evaluations, ∀ text address,
        evaluation.nodeList.lookup text = some address ↔ (text, address) ∈ round.table := by
  induction messages generalizing seen client with
  | nil => exact ⟨client, [], rfl, by simpa using h, by simp⟩
  | cons msg messages ih =>
      obtain ⟨hkind, hkinds⟩ := List.forall_mem_cons.mp hkinds
      -- what the rest of the messages has to meet, once `msg` is seen
      have hrest : ∀ client', Collecting round (seen ++ [msg]) client' →
          ∃ client'' evaluations, client'.receiveAll messages = .ok (client'', evaluations) ∧
            Collecting round (seen ++ msg :: messages) client'' ∧
            ∀ evaluation ∈ evaluations, ∀ text address,
              evaluation.nodeList.lookup text = some address ↔ (text, address) ∈ round.table := by
        intro client' hcollecting
        rw [← List.singleton_append, ← List.append_assoc]
        apply ih hcollecting hkinds
        · intro front page back heq
          simpa using hconfigured (msg :: front) page back (by rw [heq]; rfl)
        · intro front page back heq hend other hother
          simpa using hcomplete (msg :: front) page back (by rw [heq]; rfl) hend other hother
      rcases hkind with ⟨nodeId, rfl⟩ | ⟨page, hpage, rfl⟩
      · obtain ⟨client', evaluations, hreceive, hcollecting, hexact⟩ :=
          hrest _ (h.receiveConfig nodeId)
        refine ⟨client', evaluations, ?_, hcollecting, hexact⟩
        simp only [EvalClient.receiveAll, EvalClient.receive, hreceive, bind, Except.bind]
        rfl
      · obtain ⟨strNodeId, hconfig⟩ :=
          h.config (by simpa using hconfigured [] page messages rfl)
        obtain ⟨middle, built, htable, hsame, hnodes, hbuilt⟩ :=
          EvalClient.receiveTable_of_mem hpage hconfig
        have hmiddle := h.receiveTable hdistinct hpage hsame hnodes
        obtain ⟨client', evaluations, hreceive, hcollecting, hexact⟩ := hrest _ hmiddle
        refine ⟨client', built.toList ++ evaluations, ?_, hcollecting, ?_⟩
        · simp only [EvalClient.receiveAll, EvalClient.receive, htable, hreceive, bind, Except.bind]
          rfl
        · intro evaluation hevaluation
          rcases List.mem_append.mp hevaluation with hnow | hlater
          · obtain ⟨hend, hlist⟩ := hbuilt evaluation (Option.mem_toList.mp hnow)
            rw [hlist]
            apply hmiddle.complete
            intro other hother
            rcases hcomplete [] page messages rfl hend other hother with rfl | hseen
            · simp
            · exact List.mem_append_left _ (by simpa using hseen)
          · exact hexact evaluation hlater

end Collecting

/-! ## Runs of rounds -/

namespace Delivery

variable {ip : Str} {port : ℕ}

/-- A round that reaches a client in a good order: its pages after its
configuration, an end page after all pages, and no two nodes of the table get the
same id. -/
structure Orderly (delivery : Delivery ip port) : Prop where
  distinct : (delivery.round.table.map Prod.fst).Nodup
  configured : ∀ front page back, delivery.messages = front ++ .table page :: back →
    ∃ nodeId, .config nodeId delivery.round.config ∈ front
  complete : ∀ front page back, delivery.messages = front ++ .table page :: back →
    page.isEnd = true → ∀ other ∈ delivery.round.pages, other = page ∨ .table other ∈ front

/-- The ids of an earlier round that a client has read are ids of a later one. -/
def NoneLeft (earlier later : Delivery ip port) : Prop :=
  earlier.messages ≠ [] → later.messages ≠ [] →
    ∀ text ∈ earlier.round.table.map Prod.fst, text ∈ later.round.table.map Prod.fst

/-- The messages of a round in the order they are sent. -/
def inOrder (round : Round) : Delivery ip port := ⟨round, round.sentTo ip port, List.Perm.refl _⟩

end Delivery

/-- Whenever a client builds a node table and a peer manager, its node list holds
exactly the entries of the table of that round, if every round reaches it in a
good order and no ids are left over from the rounds before. -/
theorem node_list_is_table {ip : Str} {port : ℕ} (localBroadcastPort : ℕ)
    (deliveries : List (Delivery ip port))
    (horderly : ∀ delivery ∈ deliveries, delivery.messages ≠ [] → delivery.Orderly)
    (hnone : deliveries.Pairwise Delivery.NoneLeft) :
    ∃ client evaluations,
      (EvalClient.fresh localBroadcastPort).runRounds deliveries = .ok (client, evaluations) ∧
      ∀ round evaluation, (round, evaluation) ∈ evaluations → ∀ text address,
        evaluation.nodeList.lookup text = some address ↔ (text, address) ∈ round.table := by
  have hnew : ∀ delivery ∈ deliveries, delivery.messages ≠ [] → ∀ text address,
      (EvalClient.fresh localBroadcastPort).nodes.lookup text = some address →
        text ∈ delivery.round.table.map Prod.fst := by
    intro delivery _ _ text address hlookup
    simp [EvalClient.fresh, EvalClient.nodes] at hlookup
  generalize EvalClient.fresh localBroadcastPort = client at hnew ⊢
  induction deliveries generalizing client with
  | nil => exact ⟨client, [], rfl, by simp⟩
  | cons delivery deliveries ih =>
      obtain ⟨hdelivery, hdeliveries⟩ := List.forall_mem_cons.mp horderly
      obtain ⟨hleft, hpairwise⟩ := List.pairwise_cons.mp hnone
      obtain ⟨hnow, hlater⟩ := List.forall_mem_cons.mp hnew
      rcases eq_or_ne delivery.messages [] with hempty | hmessages
      · -- a round without this client
        obtain ⟨client', evaluations, hrun, hexact⟩ := ih hdeliveries hpairwise client hlater
        refine ⟨client', evaluations, ?_, hexact⟩
        simp only [EvalClient.runRounds, hempty, EvalClient.receiveAll, hrun, bind, Except.bind]
        rfl
      · have hgood := hdelivery hmessages
        have hstart : Collecting delivery.round [] client :=
          ⟨by simp, hnow hmessages, by simp, by simp⟩
        obtain ⟨middle, evaluations, hreceive, hcollecting, hexact⟩ := hstart.receiveAll
          hgood.distinct (fun msg hmsg => Round.mem_sentTo (delivery.perm.subset hmsg))
          (by simpa using hgood.configured) (by simpa using hgood.complete)
        have hknown : ∀ later ∈ deliveries, later.messages ≠ [] → ∀ text address,
            middle.nodes.lookup text = some address → text ∈ later.round.table.map Prod.fst :=
          fun later hlater hne text address hlookup =>
            hleft later hlater hmessages hne text (hcollecting.within text address hlookup)
        obtain ⟨client', rest, hrun, hrest⟩ := ih hdeliveries hpairwise middle hknown
        refine ⟨client', (evaluations.map fun evaluation => (delivery.round, evaluation)) ++ rest,
          ?_, ?_⟩
        · simp only [EvalClient.runRounds, hreceive, hrun, bind, Except.bind]
          rfl
        · intro round evaluation hmem
          rcases List.mem_append.mp hmem with hnow | hlater
          · obtain ⟨evaluation, hevaluation, heq⟩ := List.mem_map.mp hnow
            obtain ⟨rfl, rfl⟩ := Prod.mk.inj heq
            exact hexact evaluation hevaluation
          · exact hrest round evaluation hlater

/-! ## In order -/

/-- What stands before an element that is not in the front part includes the front
part. -/
theorem prefix_of_append_eq {α : Type*} {left right front back : List α} {a : α}
    (h : left ++ right = front ++ a :: back) (ha : a ∉ left) : left <+: front := by
  rcases List.append_eq_append_iff.mp h with ⟨middle, rfl, -⟩ | ⟨middle, rfl, hmiddle⟩
  · exact List.prefix_append left middle
  · rcases middle with _ | ⟨b, middle⟩
    · simp
    · obtain ⟨rfl, -⟩ := List.cons.inj hmiddle
      simp at ha

namespace Round

variable {round : Round} {ip : Str} {port : ℕ}

/-- The records at one address. -/
def recordsAt (round : Round) (ip : Str) (port : ℕ) : NodeDatabase :=
  round.db.filter fun entry => entry.2.ip = ip ∧ entry.2.bootstrapPort = port

/-- An address gets a configuration and a copy of each page for every record. -/
theorem sentTo_eq : round.sentTo ip port =
    ((round.recordsAt ip port).map fun entry => .config entry.1 round.config) ++
      round.pages.flatMap fun page =>
        (round.recordsAt ip port).map fun _ => .table page := by
  rw [sentTo, List.filter_append, List.map_append]
  congr 1
  · rw [EvalServer.handleConfig, List.filter_map, List.map_map]
    rfl
  · rw [EvalServer.handleTable, List.filter_flatMap, List.map_flatMap]
    refine List.flatMap_congr fun page _ => ?_
    rw [List.filter_map, List.map_map]
    rfl

end Round

namespace Delivery

variable {ip : Str} {port : ℕ}

/-- Messages in the order they are sent are in a good order. -/
theorem orderly_inOrder {round : Round} (hdistinct : (round.table.map Prod.fst).Nodup) :
    (inOrder round : Delivery ip port).Orderly := by
  have hpages : ∀ front page back, round.sentTo ip port = front ++ .table page :: back →
      page ∈ round.pages ∧ ∃ entry, entry ∈ round.recordsAt ip port := by
    intro front page back heq
    have hmem : .table page ∈ round.sentTo ip port := by simp [heq]
    simp only [Round.sentTo_eq, List.mem_append, List.mem_map, List.mem_flatMap,
      reduceCtorEq, and_false, exists_false, BootstrapMessage.table.injEq, false_or] at hmem
    obtain ⟨page, hpage, entry, hentry, rfl⟩ := hmem
    exact ⟨hpage, entry, hentry⟩
  refine ⟨hdistinct, fun front page back heq => ?_, fun front page back heq hend => ?_⟩
  · obtain ⟨-, entry, hentry⟩ := hpages front page back heq
    simp only [inOrder, Round.sentTo_eq] at heq
    refine ⟨entry.1, (prefix_of_append_eq heq (by simp)).subset ?_⟩
    exact List.mem_map_of_mem hentry
  · obtain ⟨hpage, entry, hentry⟩ := hpages front page back heq
    obtain ⟨earlier, last, hsplit, -, hearlier⟩ := EvalServer.isEnd_of_tablePages []
      (Nat.zero_add round.db.length) (List.ne_nil_of_mem (List.mem_filter.mp hentry).1)
    change round.pages = earlier ++ [last] at hsplit
    have hlast : page = last := by
      rw [hsplit, List.mem_append, List.mem_singleton] at hpage
      refine hpage.resolve_left fun hmem => ?_
      simp [hearlier page hmem] at hend
    subst hlast
    simp only [inOrder, Round.sentTo_eq, hsplit, List.flatMap_append, ← List.append_assoc] at heq
    have hfront := prefix_of_append_eq heq (by
      simp only [List.mem_append, List.mem_map, List.mem_flatMap, reduceCtorEq, and_false,
        exists_false, false_or, not_exists, not_and]
      rintro other hother _ - hsame
      obtain rfl := BootstrapMessage.table.inj hsame
      simp [hearlier other hother] at hend)
    intro other hother
    change other ∈ round.pages at hother
    rw [hsplit, List.mem_append, List.mem_singleton] at hother
    refine hother.symm.imp_right fun hmem => hfront.subset (List.mem_append_right _ ?_)
    exact List.mem_flatMap.mpr ⟨other, hmem, List.mem_map.mpr ⟨entry, hentry, rfl⟩⟩

end Delivery

/-! ## A reconfiguration -/

/-- A city of districts, and nothing above it. -/
def oneCity (numNodesInDist numNodesInCity : ℕ) : Topology where
  numNodesInDist := numNodesInDist
  numCnodesInDist := 1
  numNodesInCity := numNodesInCity
  numCnodesInCity := 1
  numNodesInState := 0
  numCnodesInState := 1
  numNodesInCountry := 0
  numCnodesInCountry := 1
  numNodesInContinent := 0
  numContinents := 1
  numCnodesInContinent := 1

/-- A few nodes at one host. -/
def localNodes (count : ℕ) : NodeDatabase :=
  (List.range count).map fun number => (number, ⟨"127.0.0.1".toList, 7000 + number, 8000 + number⟩)

theorem localNodes_nodup (count : ℕ) : ((localNodes count).map Prod.fst).Nodup := by
  have hids : (localNodes count).map Prod.fst = List.range count := by
    rw [localNodes, List.map_map]
    exact List.map_id _
  exact hids ▸ List.nodup_range

/-- A round with a few nodes at one host. -/
def localRound (count numNodesInDist numNodesInCity : ℕ) (h : 0 < numNodesInDist) : Round where
  config := ⟨"run".toList, .hgfrr, oneCity numNodesInDist numNodesInCity⟩
  db := localNodes count
  ids_nodup := localNodes_nodup count
  nonempty := h

/-- The messages of some rounds, in order, for the first node. -/
def localDeliveries (rounds : List Round) : List (Delivery "127.0.0.1".toList 7000) :=
  rounds.map Delivery.inOrder

theorem node_list_is_table_registered :
    ∃ client evaluations,
      (EvalClient.fresh 8000).runRounds
        (localDeliveries [localRound 1 2 0 (by decide), localRound 2 2 0 (by decide)]) =
          .ok (client, evaluations) ∧
      ∀ round evaluation, (round, evaluation) ∈ evaluations → ∀ text address,
        evaluation.nodeList.lookup text = some address ↔ (text, address) ∈ round.table := by
  apply node_list_is_table
  · intro delivery hdelivery _
    simp only [localDeliveries, List.map_cons, List.map_nil, List.mem_cons, List.not_mem_nil,
      or_false] at hdelivery
    rcases hdelivery with rfl | rfl
    · exact Delivery.orderly_inOrder (by decide +kernel)
    · exact Delivery.orderly_inOrder (by decide +kernel)
  · refine List.pairwise_pair.mpr fun _ _ => ?_
    decide +kernel

/-- After a round with a district of two nodes, a round with two districts of one
node starts with a node of the old district in its list. -/
theorem node_list_not_table : ¬∀ (ip : Str) (port localBroadcastPort : ℕ)
    (deliveries : List (Delivery ip port)) (client : EvalClient)
    (evaluations : List (Round × Evaluation)),
    (EvalClient.fresh localBroadcastPort).runRounds deliveries = .ok (client, evaluations) →
    ∀ round evaluation, (round, evaluation) ∈ evaluations → ∀ text address,
      evaluation.nodeList.lookup text = some address ↔ (text, address) ∈ round.table := by
  intro h
  have hleft : ∃ built ∈ (match (EvalClient.fresh 8000).runRounds
      (localDeliveries [localRound 2 2 0 (by decide), localRound 2 1 2 (by decide)]) with
        | .ok result => result.2
        | .error _ => []), ∃ entry ∈ built.2.nodeList,
      built.2.nodeList.lookup entry.1 = some entry.2 ∧ entry ∉ built.1.table := by
    decide +kernel
  generalize hrun : (EvalClient.fresh 8000).runRounds
    (localDeliveries [localRound 2 2 0 (by decide), localRound 2 1 2 (by decide)]) = ran at hleft
  cases ran with
  | error fault => simp at hleft
  | ok result =>
      obtain ⟨built, hbuilt, entry, -, hlookup, hentry⟩ := hleft
      exact hentry ((h _ _ _ _ _ _ hrun built.1 built.2 hbuilt entry.1 entry.2).mp hlookup)

end Hgfrr
