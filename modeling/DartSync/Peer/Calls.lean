import DartSync.Foundation.Transition
import DartSync.Peer.Compare
import DartSync.Peer.Monitor

/-!
# The calls on a peer's table

Three kinds of threads share the table of a peer: `main` runs `compareNode` on
broadcast entries, the file monitor handles events, and every `ptp_download`
ends with a call of `setNodeType`.  Each call is one step here, and the calls
come in any order.
-/

namespace DartSync
namespace Peer

open Foundation

/-- The table, the arguments of the running `ptp_download` threads, and the
tables sent as `FILE_UPDATE`. -/
structure Shared where
  table : List Node
  running : List DownloadArg
  sent : List (List Node)
deriving DecidableEq

inductive Call where
  | compare (seekNode : Node)
  | event (now : UInt64) (stat? : Option FileStat) (event : Event)
  /-- The end of the download with this index. -/
  | complete (index : Nat)
deriving DecidableEq

namespace Shared

def fresh : Shared where
  table := []
  running := []
  sent := []

def node (s : Shared) (f : FileName) : Option Node :=
  lookup Node.name f s.table

/-- `pthread_create` for the effect of a comparison. -/
def create (running : List DownloadArg) : Option Effect -> List DownloadArg
  | some (Effect.startDownload arg) => running ++ [arg]
  | _ => running

def compare (myip : Ip) (seekNode : Node) (s : Shared) : Shared where
  table := (compareNode myip seekNode s.table).1
  running := create s.running (compareNode myip seekNode s.table).2
  sent := s.sent

def handle (myip : Ip) (now : UInt64) (stat? : Option FileStat)
    (event : Event) (s : Shared) : Shared where
  table := (notifyEvent myip now stat? event s.table).1
  running := s.running
  sent :=
    if (notifyEvent myip now stat? event s.table).2 then
      s.sent ++ [(notifyEvent myip now stat? event s.table).1]
    else s.sent

def complete (index : Nat) (s : Shared) : Option Shared :=
  match s.running[index]? with
  | none => none
  | some arg =>
      some { s with
        table := setNodeType arg.filename FILE_DOWNLOAD arg.size s.table
        running := s.running.eraseIdx index }

end Shared

def call (myip : Ip) (s : Shared) : Call -> Option Shared
  | Call.compare seekNode => some (s.compare myip seekNode)
  | Call.event now stat? event =>
      if overruns event then none else some (s.handle myip now stat? event)
  | Call.complete index => s.complete index

theorem call_event_eq_some_iff {myip : Ip} {s s' : Shared} {now : UInt64}
    {stat? : Option FileStat} {event : Event} :
    call myip s (Call.event now stat? event) = some s' <->
      overruns event = false ∧ s.handle myip now stat? event = s' := by
  dsimp only [call]
  cases overruns event with
  | false => simp
  | true => simp

/-!
## One file at a time
-/

namespace Shared

variable {myip : Ip} {s s' : Shared} {seekNode : Node} {now : UInt64}
  {stat? : Option FileStat} {event : Event} {f : FileName} {index : Nat}

theorem complete_eq_some_iff :
    s.complete index = some s' <->
      exists arg, s.running[index]? = some arg ∧
        { s with
          table := setNodeType arg.filename FILE_DOWNLOAD arg.size s.table
          running := s.running.eraseIdx index } = s' := by
  unfold complete
  cases s.running[index]? with
  | none => simp
  | some arg => simp

theorem compare_node_self :
    ((s.compare myip seekNode).node seekNode.name,
      (compareNode myip seekNode s.table).2) =
    compareEntry myip seekNode (s.node seekNode.name) :=
  compareNode_self

theorem compare_node_of_ne (h : f ≠ seekNode.name) :
    (s.compare myip seekNode).node f = s.node f :=
  compareNode_of_ne h

theorem handle_node_self :
    ((s.handle myip now stat? event).node event.name,
      (notifyEvent myip now stat? event s.table).2) =
    notifyNode myip now stat? event (s.node event.name) :=
  notifyEvent_self

theorem handle_node_of_ne (h : f ≠ event.name) :
    (s.handle myip now stat? event).node f = s.node f :=
  notifyEvent_of_ne h

theorem compare_running_cases :
    (s.compare myip seekNode).running = s.running ∨
      exists arg, (compareNode myip seekNode s.table).2 =
        some (Effect.startDownload arg) := by
  unfold compare
  dsimp only
  cases (compareNode myip seekNode s.table).2 with
  | none => exact Or.inl rfl
  | some e =>
      cases e with
      | startDownload arg => exact Or.inr ⟨arg, rfl⟩
      | removeFile name => exact Or.inl rfl

theorem compare_started {arg : DownloadArg}
    (h : (compareNode myip seekNode s.table).2 =
      some (Effect.startDownload arg)) :
    arg = downloadArg seekNode.name seekNode ∧
      (s.compare myip seekNode).running = s.running ++ [arg] ∧
      exists n, (s.compare myip seekNode).node seekNode.name = some n ∧
        n.type = FILE_DOWNLOADING ∧ n.timestamp = seekNode.timestamp ∧
        n.size = seekNode.size := by
  have hrunning : (s.compare myip seekNode).running = s.running ++ [arg] := by
    rw [compare, h]
    rfl
  have hentry := @compare_node_self myip s seekNode
  have hcompared := compareEntry_compared myip seekNode
    (s.node seekNode.name)
  rw [← hentry, h] at hcompared
  generalize hnode : (s.compare myip seekNode).node seekNode.name = node?
    at hcompared
  generalize s.node seekNode.name = before at hcompared
  cases hcompared with
  | download htype hversion _ =>
      rcases versionOf_eq_iff.mp hversion with ⟨htime, hsize⟩
      exact ⟨rfl, hrunning, _, rfl, htype, htime, hsize⟩

theorem complete_node_self {arg : DownloadArg}
    (harg : s.running[index]? = some arg) (h : s.complete index = some s') :
    s'.node arg.filename = (s.node arg.filename).map fun current =>
      { current with type := FILE_DOWNLOAD, size := arg.size } := by
  rcases complete_eq_some_iff.mp h with ⟨arg', harg', rfl⟩
  rw [harg] at harg'
  cases harg'
  exact lookup_setNodeType _ _ _ _

theorem complete_node_of_ne {arg : DownloadArg}
    (harg : s.running[index]? = some arg) (h : s.complete index = some s')
    (hne : f ≠ arg.filename) : s'.node f = s.node f := by
  rcases complete_eq_some_iff.mp h with ⟨arg', harg', rfl⟩
  rw [harg] at harg'
  cases harg'
  exact lookup_setNodeType_of_ne hne

end Shared

end Peer
end DartSync
