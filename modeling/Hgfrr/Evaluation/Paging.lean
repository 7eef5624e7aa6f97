import Hgfrr.Evaluation.NodeLists
import Hgfrr.Topology.IdOrder

/-!
# The pages of the table

The server cuts its table into pages, one for every two thousand entries and one for
the rest. Each client gets them in this order, and when it starts with no nodes it has
read exactly the table after the last one.
-/

namespace Hgfrr

/-- What is in a list of parts once is in one of the parts only. -/
theorem existsUnique_part {α β : Type*} {items : α → List β} {parts : List α} {b : β}
    (hnodup : (parts.flatMap items).Nodup) (hmem : b ∈ parts.flatMap items) :
    ∃! k : ℕ, ∃ part, parts[k]? = some part ∧ b ∈ items part := by
  induction parts with
  | nil => simp at hmem
  | cons part parts ih =>
      rw [List.flatMap_cons, List.nodup_append] at hnodup
      obtain ⟨_, hrest, hdisjoint⟩ := hnodup
      have hlater (k : ℕ) (h : ∃ other, parts[k]? = some other ∧ b ∈ items other) :
          b ∈ parts.flatMap items := by
        obtain ⟨other, hother, hb⟩ := h
        exact List.mem_flatMap.mpr ⟨other, List.mem_of_getElem? hother, hb⟩
      rcases List.mem_append.mp (List.flatMap_cons ▸ hmem) with hfirst | hother
      · refine ⟨0, ⟨part, rfl, hfirst⟩, fun k hk => ?_⟩
        cases k with
        | zero => rfl
        | succ k => exact absurd rfl (hdisjoint b hfirst b (hlater k hk))
      · obtain ⟨k, hk, honly⟩ := ih hrest hother
        refine ⟨k + 1, hk, fun j hj => ?_⟩
        cases j with
        | zero =>
            obtain ⟨first, hfirst, hb⟩ := hj
            obtain rfl := Option.some.inj hfirst
            exact absurd rfl (hdisjoint b hb b hother)
        | succ j => rw [honly j hj]

/-! ## The pages -/

/-- Pages that cover a database. -/
structure PagesOf (db : NodeDatabase) (pages : List TablePage) : Prop where
  entries : pages.flatMap TablePage.entries = db.map EvalServer.tableRow
  exactlyOne : ∀ entry ∈ db, ∃! k : ℕ, ∃ page, pages[k]? = some page ∧
    EvalServer.tableRow entry ∈ page.entries
  sizes : ∀ page ∈ pages, 1 ≤ page.entries.length ∧ page.entries.length ≤ 2000 ∧
    page.tableSize = page.entries.length
  isEnd : ∃ front last, pages = front ++ [last] ∧ last.isEnd = true ∧
    ∀ page ∈ front, page.isEnd = false

theorem EvalServer.nodup_tableRow {db : NodeDatabase} (hids : (db.map Prod.fst).Nodup) :
    (db.map tableRow).Nodup := by
  apply List.Nodup.of_map Prod.fst
  rw [List.map_map]
  exact hids

theorem EvalServer.pagesOf_tablePages {db : NodeDatabase} (hne : db ≠ [])
    (hids : (db.map Prod.fst).Nodup) : PagesOf db (tablePages db.length 0 [] db) := by
  have hentries : (tablePages db.length 0 [] db).flatMap TablePage.entries = db.map tableRow :=
    flatMap_tablePages (Nat.zero_add _) fun _ => rfl
  refine ⟨hentries, fun entry hentry => ?_, fun page hpage => ?_, ?_⟩
  · apply existsUnique_part
    · rw [hentries]
      exact nodup_tableRow hids
    · rw [hentries]
      exact List.mem_map_of_mem hentry
  · obtain ⟨hsize, hpos, hle⟩ := tableSize_of_mem_tablePages (Nat.zero_add _) rfl page hpage
    exact ⟨hpos, hle, hsize⟩
  · exact isEnd_of_tablePages [] (Nat.zero_add _) hne

/-! ## A client that reads them -/

namespace EvalClient

variable {client : EvalClient} {config : EvalConfig}

/-- The entries of a page by ids. -/
def idRows (topology : Topology) (entries : List (ℕ × Str × ℕ)) : NodeList :=
  entries.map fun entry => (convertIDIntToString entry.1 topology, entry.2)

/-- A client with a configuration has a node of its own. -/
structure Configured (config : EvalConfig) (client : EvalClient) : Prop where
  evalConfig : ∃ strNodeId, client.evalConfig = some (strNodeId, config)
  self : ∃ self, client.self = some self

theorem configured_receiveConfig (client : EvalClient) (nodeId : ℕ) (config : EvalConfig) :
    Configured config (client.receiveConfig nodeId config) :=
  ⟨⟨_, client.evalConfig_receiveConfig nodeId config⟩, ⟨_, rfl⟩⟩

/-- A page that is as long as it says is read entry by entry. -/
theorem Configured.handleTable (h : Configured config client) {page : TablePage}
    (hsize : page.tableSize = page.entries.length) :
    ∃ client' uses, client.handleTable page = .ok (client', uses) ∧ Configured config client' ∧
      client'.nodeList =
        some (AssocMap.assignAll (idRows config.topology page.entries) client.nodes) := by
  obtain ⟨⟨strNodeId, hconfig⟩, self, hself⟩ := h
  have hread : readEntries config.topology page (client.nodeList.getD []) =
      .ok (AssocMap.assignAll (idRows config.topology page.entries) client.nodes) := by
    rw [readEntries, if_neg (by rw [hsize]; exact lt_irrefl _), hsize, List.take_length,
      AssocMap.assignAll, idRows, List.foldl_map]
    rfl
  generalize AssocMap.assignAll (idRows config.topology page.entries) client.nodes = all at hread ⊢
  cases hend : page.isEnd with
  | false =>
      have hreceive :
          client.receiveTable page = .ok ({ client with nodeList := some all }, none) := by
        simp only [receiveTable, hconfig, hread, hend, bind, Except.bind]
        rfl
      rw [EvalClient.handleTable, hreceive]
      exact ⟨_, _, rfl, ⟨⟨strNodeId, hconfig⟩, self, hself⟩, rfl⟩
  | true =>
      obtain ⟨client', evaluation, hreceive, hsame, hself', hnodes, heval⟩ :
          ∃ client' evaluation, client.receiveTable page = .ok (client', some evaluation) ∧
            client'.evalConfig = client.evalConfig ∧ client'.self = client.self ∧
            client'.nodeList = some all ∧ evaluation.self = client.self := by
        simp only [receiveTable, hconfig, hread, hend, bind, Except.bind]
        cases config.evalType with
        | hgfrr => exact ⟨_, _, rfl, rfl, rfl, rfl, rfl⟩
        | kademlia => exact ⟨_, _, rfl, rfl, rfl, rfl, rfl⟩
      rw [EvalClient.handleTable, hreceive]
      simp only [heval, hself, deref, bind, Except.bind]
      exact ⟨_, _, rfl, ⟨⟨strNodeId, hsame.trans hconfig⟩, self, hself'.trans hself⟩, hnodes⟩

/-- One page after the other. -/
theorem Configured.run_pages (h : Configured config client) {pages : List TablePage}
    (hsizes : ∀ page ∈ pages, page.tableSize = page.entries.length) :
    ∃ client', client.run (pages.map .table) = .ok client' ∧
      client'.nodes = AssocMap.assignAll
        (idRows config.topology (pages.flatMap TablePage.entries)) client.nodes ∧
      (pages ≠ [] → client'.nodeList = some client'.nodes) := by
  induction pages generalizing client with
  | nil => exact ⟨client, rfl, rfl, absurd rfl⟩
  | cons page pages ih =>
      obtain ⟨hsize, hrest⟩ := List.forall_mem_cons.mp hsizes
      obtain ⟨next, uses, hhandle, hnext, hnodes⟩ := h.handleTable hsize
      obtain ⟨after, hrun, hafter, hsome⟩ := ih hnext hrest
      refine ⟨after, Except.bind_eq_ok.mpr ⟨_, hhandle, hrun⟩, ?_, fun _ => ?_⟩
      · have hread : next.nodes =
            AssocMap.assignAll (idRows config.topology page.entries) client.nodes := by
          rw [nodes, hnodes, Option.getD_some]
        rw [hafter, hread, List.flatMap_cons, idRows, idRows, idRows, List.map_append]
        simp only [AssocMap.assignAll, List.foldl_append]
      · cases pages with
        | nil =>
            obtain rfl := Except.ok.inj hrun
            rw [nodes, hnodes, Option.getD_some]
        | cons page' pages => exact hsome (List.cons_ne_nil _ _)

end EvalClient

/-- Registered nodes with different numbers have different ids. -/
theorem nodup_idRows {topology : Topology} {db : NodeDatabase} (hids : (db.map Prod.fst).Nodup)
    (hnodes : ∀ entry ∈ db, entry.1 < topology.numNodes ∧ topology.IndicesFit entry.1) :
    ((EvalClient.idRows topology (db.map EvalServer.tableRow)).map Prod.fst).Nodup := by
  have hkeys : (EvalClient.idRows topology (db.map EvalServer.tableRow)).map Prod.fst =
      (db.map Prod.fst).map fun id => convertIDIntToString id topology := by
    simp [EvalClient.idRows, EvalServer.tableRow]
  rw [hkeys]
  refine List.Nodup.map_on (fun a ha b hb h => ?_) hids
  obtain ⟨entry, hentry, rfl⟩ := List.mem_map.mp ha
  obtain ⟨other, hother, rfl⟩ := List.mem_map.mp hb
  exact Topology.convertIDIntToString_inj (hnodes entry hentry).1 (hnodes other hother).1
    (hnodes entry hentry).2 (hnodes other hother).2 h

/-- The server sends every client the same pages, which cover the table. A client that
reads them in this order, and has read no nodes before, has every registered node under
its id in the end, and no other. -/
theorem paging_lossless (db : NodeDatabase) (hne : db ≠ []) (hids : (db.map Prod.fst).Nodup) :
    ∃ pages, PagesOf db pages ∧
      EvalServer.handleTable db = pages.flatMap (fun page =>
        db.map fun entry => ⟨entry.2.ip, entry.2.bootstrapPort, .table page⟩) ∧
      ∀ (client : EvalClient) (nodeId : ℕ) (config : EvalConfig),
        client.nodeList.getD [] = [] →
        (∀ entry ∈ db,
          entry.1 < config.topology.numNodes ∧ config.topology.IndicesFit entry.1) →
        ∃ client' nodeList,
          (client.receiveConfig nodeId config).run (pages.map .table) = .ok client' ∧
          client'.nodeList = some nodeList ∧
          nodeList = (db.map fun entry => (convertIDIntToString entry.1 config.topology,
            entry.2.ip, entry.2.broadcastPort)) ∧
          nodeList.length = db.length ∧ (nodeList.map Prod.fst).Nodup := by
  have hpages := EvalServer.pagesOf_tablePages hne hids
  refine ⟨_, hpages, rfl, fun client nodeId config hempty hnodes => ?_⟩
  obtain ⟨client', hrun, hread, hsome⟩ :=
    (EvalClient.configured_receiveConfig client nodeId config).run_pages
      fun page hpage => (hpages.sizes page hpage).2.2
  have hnodup := nodup_idRows hids hnodes
  have hrows : EvalClient.idRows config.topology (db.map EvalServer.tableRow) =
      db.map fun entry => (convertIDIntToString entry.1 config.topology,
        entry.2.ip, entry.2.broadcastPort) := by
    rw [EvalClient.idRows, List.map_map]
    rfl
  have hempty : (client.receiveConfig nodeId config).nodes = [] :=
    (EvalClient.nodes_receiveConfig nodeId config).trans hempty
  rw [hpages.entries, hempty, AssocMap.assignAll_of_nodup (by simpa using hnodup),
    List.nil_append, hrows] at hread
  rw [hrows] at hnodup
  refine ⟨client', client'.nodes, hrun, hsome ?_, hread, ?_, ?_⟩
  · obtain ⟨front, last, heq, _⟩ := hpages.isEnd
    rw [heq]
    exact List.append_ne_nil_of_right_ne_nil _ (List.cons_ne_nil _ _)
  · rw [hread, List.length_map]
  · rw [hread]
    exact hnodup

open EvalClient in
theorem paging_lossless_two : ∃ pages client' nodeList, PagesOf (localNodes 2) pages ∧
    ((fresh 7000).receiveConfig 0 ⟨[], .hgfrr, oneCity 2 1⟩).run (pages.map .table) = .ok client' ∧
    client'.nodeList = some nodeList ∧ nodeList.length = 2 := by
  obtain ⟨pages, hpages, _, hclients⟩ :=
    paging_lossless (localNodes 2) (by decide) (localNodes_nodup 2)
  obtain ⟨client', nodeList, hrun, hsome, _, hlength, _⟩ :=
    hclients (fresh 7000) 0 ⟨[], .hgfrr, oneCity 2 1⟩ rfl (by decide)
  exact ⟨pages, client', nodeList, hpages, hrun, hsome, hlength⟩

end Hgfrr
