import Hgfrr.Foundation.Lines
import Hgfrr.Model.Evaluation

/-!
# The upload of a log

On request a client sends the log file of its node to the server, some lines at a time.
The server appends what it gets to a file of its own for the node. Serialization is left
out, as for the messages that prepare an experiment.
-/

namespace Hgfrr

/-- A `PUSH_LOG` message. -/
structure PushLog where
  nodeId : Str
  runId : Str
  log : Str
deriving DecidableEq, Repr

namespace EvalClient

/-- `std::getline` on a stream, until it fails. -/
def getlines (text : Str) : List Str := Lines.getlines '\n' [] text

/-- The loop over the lines: `counter` of them have been read, and `buffer` has not been
sent. After the loop the rest is sent. -/
def pushLines (push : Str → PushLog) : (counter : ℕ) → (buffer : Str) → List Str → List PushLog
  | counter, buffer, [] => if counter % 200 ≠ 0 then [push buffer] else []
  | counter, buffer, line :: lines =>
      let buffer := buffer ++ (line ++ ['\n'])
      let counter := counter + 1
      if counter % 200 = 0 then push buffer :: pushLines push counter [] lines
      else pushLines push counter buffer lines

/-- `EvalClient::send_push_log`: what it sends, where `recordsCsv` is the content of the
log file, or nothing where the file cannot be opened. -/
def pushLogs (client : EvalClient) (recordsCsv : Str) : Except ClientFault (List PushLog) := do
  let (_, config) ← deref client.evalConfig
  let evaluation ← match config.evalType with
    | .kademlia => deref client.peerManagerEth
    | .hgfrr => deref client.peerManager
  let self ← deref client.self
  return pushLines (⟨self.id, evaluation.config.runId, ·⟩) 0 [] (getlines recordsCsv)

end EvalClient

namespace EvalServer

/-- The log files of the server, by their names. -/
abbrev LogFiles := Str → Str

/-- The name of the file for a node and a run, in the directory for logs. -/
def logFile (runId nodeId : Str) : Str := runId ++ '_' :: nodeId ++ ".txt".toList

/-- `EvalServer::receive`, for a `PUSH_LOG`: the log is appended to the file. -/
def receivePushLog (files : LogFiles) (msg : PushLog) : LogFiles :=
  Function.update files (logFile msg.runId msg.nodeId)
    (files (logFile msg.runId msg.nodeId) ++ msg.log)

end EvalServer

end Hgfrr
