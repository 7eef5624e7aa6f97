import Hgfrr.Evaluation.NodeLists
import Hgfrr.Model.LogUpload

/-!
# Logs arrive whole

The lines of a log file are sent in chunks of two hundred, and the rest in a last one.
Put together they are the file, with the last line ended if it was not, and this is what
the file of the server grows by.
-/

namespace Hgfrr

open Lines

/-- The log of a client, sent in chunks of its lines. -/
structure SentInChunks (content : Str) (messages : List PushLog) (chunks : List (List Str)) :
    Prop where
  lines : IsLines '\n' content chunks.flatten
  logs : messages.map PushLog.log = chunks.map (unlines '\n')
  sizes : ∀ chunk ∈ chunks, 1 ≤ chunk.length ∧ chunk.length ≤ 200

namespace EvalClient

variable {push : Str → PushLog} {counter : ℕ} {held lines : List Str}

/-- The buffer holds the lines since the last message, as many as the counter is past a
multiple of two hundred. -/
theorem pushLines_chunks (hheld : held.length = counter % 200) : ∃ chunks : List (List Str),
    chunks.flatten = held ++ lines ∧
      pushLines push counter (unlines '\n' held) lines =
        chunks.map (fun chunk => push (unlines '\n' chunk)) ∧
      ∀ chunk ∈ chunks, 1 ≤ chunk.length ∧ chunk.length ≤ 200 := by
  induction lines generalizing counter held with
  | nil =>
      rw [pushLines]
      split
      next hrest => exact ⟨[held], by simp, rfl, by simp; omega⟩
      next hnone =>
        obtain rfl := List.eq_nil_of_length_eq_zero (by omega : held.length = 0)
        exact ⟨[], rfl, rfl, by simp⟩
  | cons line lines ih =>
      have hbuffer : unlines '\n' held ++ (line ++ ['\n']) = unlines '\n' (held ++ [line]) := by
        simp
      have hlength : (held ++ [line]).length = counter % 200 + 1 := by simp [hheld]
      rw [pushLines, hbuffer]
      split
      next hfull =>
        obtain ⟨chunks, hflatten, hsent, hsizes⟩ :=
          @ih (counter + 1) [] (by simp only [List.length_nil, hfull])
        refine ⟨(held ++ [line]) :: chunks, by simp [hflatten], ?_, ?_⟩
        · rw [List.map_cons, ← hsent, unlines_nil]
        · rw [List.forall_mem_cons]
          exact ⟨by omega, hsizes⟩
      next hmore =>
        obtain ⟨chunks, hflatten, hsent, hsizes⟩ :=
          @ih (counter + 1) (held ++ [line]) (by omega)
        exact ⟨chunks, by simp [hflatten], hsent, hsizes⟩

/-- Logs are sent whenever the handler of log requests meets no null pointer, and under
the id of the own node. -/
theorem pushLogs_of_sendPushLog {client client' : EvalClient} {uses : List ManagerUse}
    (h : client.sendPushLog = .ok (client', uses)) (content : Str) :
    ∃ nodeId runId, client.pushLogs content =
      .ok (pushLines (⟨nodeId, runId, ·⟩) 0 [] (getlines content)) := by
  unfold sendPushLog at h
  obtain ⟨⟨strNodeId, config⟩, hconfig, h⟩ := Except.bind_eq_ok.mp h
  unfold pushLogs
  rw [hconfig]
  dsimp only at h
  simp only [bind, Except.bind]
  cases htype : config.evalType with
  | kademlia =>
      rw [htype] at h
      obtain ⟨evaluation, hmanager, h⟩ := Except.bind_eq_ok.mp h
      obtain ⟨self, hself, h⟩ := Except.bind_eq_ok.mp h
      simp only [hmanager, hself]
      exact ⟨_, _, rfl⟩
  | hgfrr =>
      rw [htype] at h
      obtain ⟨evaluation, hmanager, h⟩ := Except.bind_eq_ok.mp h
      obtain ⟨self, hself, h⟩ := Except.bind_eq_ok.mp h
      simp only [hmanager, hself]
      exact ⟨_, _, rfl⟩

theorem pushLines_getlines (push : Str → PushLog) (content : Str) :
    ∃ chunks : List (List Str), chunks.flatten = getlines content ∧
      pushLines push 0 [] (getlines content) =
        chunks.map (fun chunk => push (unlines '\n' chunk)) ∧
      ∀ chunk ∈ chunks, 1 ≤ chunk.length ∧ chunk.length ≤ 200 :=
  pushLines_chunks (by rfl : ([] : List Str).length = 0 % 200)

end EvalClient

/-! ## The file of the server -/

/-- The server keeps the chunks of a node one after the other, and other files as they are. -/
theorem EvalServer.receivePushLogs (files : LogFiles) (nodeId runId : Str)
    (chunks : List (List Str)) :
    (chunks.map fun chunk => (⟨nodeId, runId, unlines '\n' chunk⟩ : PushLog)).foldl
        receivePushLog files =
      Function.update files (logFile runId nodeId)
        (files (logFile runId nodeId) ++ unlines '\n' chunks.flatten) := by
  induction chunks generalizing files with
  | nil => simp
  | cons chunk chunks ih =>
      rw [List.map_cons, List.foldl_cons, ih, receivePushLog]
      simp only [Function.update_self, Function.update_idem, List.flatten_cons, unlines_append,
        List.append_assoc]

/-- Whatever the log file holds, the messages of an upload are its lines in chunks of one to
two hundred, each line with one newline, and none for an empty file. The server appends
them to one file. -/
theorem pushLogs_lossless (client client' : EvalClient) (uses : List ManagerUse)
    (h : client.sendPushLog = .ok (client', uses)) (content : Str) :
    ∃ messages chunks, client.pushLogs content = .ok messages ∧
      SentInChunks content messages chunks ∧
      (messages.map PushLog.log).flatten = unlines '\n' chunks.flatten ∧
      (content = [] → messages = []) ∧
      ∀ files, ∃ name, messages.foldl EvalServer.receivePushLog files =
        Function.update files name (files name ++ unlines '\n' chunks.flatten) := by
  obtain ⟨nodeId, runId, hpush⟩ := EvalClient.pushLogs_of_sendPushLog h content
  obtain ⟨chunks, hflatten, hsent, hsizes⟩ :=
    EvalClient.pushLines_getlines (⟨nodeId, runId, ·⟩) content
  have hlogs : (EvalClient.pushLines (⟨nodeId, runId, ·⟩) 0 []
      (EvalClient.getlines content)).map PushLog.log = chunks.map (unlines '\n') := by
    rw [hsent, List.map_map]
    rfl
  refine ⟨_, chunks, hpush, ⟨hflatten ▸ isLines_getlines content, hlogs, hsizes⟩, ?_, ?_,
    fun files => ⟨EvalServer.logFile runId nodeId, ?_⟩⟩
  · rw [hlogs, unlines_flatten, List.flatMap_def]
  · intro hempty
    subst hempty
    rfl
  · rw [hsent]
    exact EvalServer.receivePushLogs files nodeId runId chunks

/-- A client with a peer manager. -/
def startedClient : EvalClient :=
  let config : EvalConfig := ⟨"run".toList, .hgfrr, oneCity 2 1⟩
  let self : Node := ⟨"0".toList, "127.0.0.1".toList, 8000⟩
  ⟨8000, some ("0".toList, config), some [], some self,
    some ⟨some self, "0".toList, config, []⟩, none⟩

theorem pushLogs_lossless_two : ∃ messages,
    startedClient.pushLogs "a,1\nb,2".toList = .ok messages ∧
      (messages.map PushLog.log).flatten = "a,1\nb,2\n".toList := by
  obtain ⟨messages, chunks, hpush, hsent, hflatten, _⟩ :=
    pushLogs_lossless startedClient _ _ rfl "a,1\nb,2".toList
  exact ⟨messages, hpush, hflatten.trans (hsent.lines.whole.trans rfl)⟩

end Hgfrr
