import InferenceStore.Backend.Kind
import InferenceStore.Device
import InferenceStore.Reply
import InferenceStore.Table

/-
Run statistics. Every loaded model and script has counters of its own; they are words and
wrap around. A ledger holds the counters of all instances by their numbers.
-/

namespace InferenceStore

structure Counters where
  /-- Microseconds spent in successful runs. -/
  duration : Nat
  samples : Nat
  calls : Nat
  errors : Nat
  deriving DecidableEq, Repr

namespace Counters

def zero : Counters := ⟨0, 0, 0, 0⟩

def countSuccess (counters : Counters) (nanoseconds samples : Nat) : Counters :=
  { counters with
    duration := wrapWord (counters.duration + nanoseconds / 1000)
    samples := wrapWord (counters.samples + samples)
    calls := wrapWord (counters.calls + 1) }

/-- Counts a failed run. A failure is a call too. -/
def countError (counters : Counters) : Counters :=
  { counters with
    calls := wrapWord (counters.calls + 1)
    errors := wrapWord (counters.errors + 1) }

end Counters

inductive EntityKind where
  | model
  | script
  deriving DecidableEq, Repr

def EntityKind.name : EntityKind → String
  | .model => "MODEL"
  | .script => "SCRIPT"

structure RunInfo where
  key : String
  kind : EntityKind
  backend : BackendKind
  device : Device
  tag : String
  deriving DecidableEq, Repr

/-- Names and values of the statistics. Scripts have no samples and report minus one. -/
def RunInfo.report (info : RunInfo) (counters : Counters) : Reply :=
  let samples :=
    match info.kind with
    | .model => signedWord counters.samples
    | .script => -1
  .array
    [ .status "key", .text info.key
    , .status "type", .status info.kind.name
    , .status "backend", .status info.backend.name
    , .status "device", .status info.device.text
    , .status "tag", .text info.tag
    , .status "duration", .integer (signedWord counters.duration)
    , .status "samples", .integer samples
    , .status "calls", .integer (signedWord counters.calls)
    , .status "errors", .integer (signedWord counters.errors) ]

/-- The number of a loaded model or script. No two loads share one. -/
abbrev InstanceId := Nat

/-- The counters of all instances; those of an instance never counted are zero. -/
structure Ledger where
  accounts : Table InstanceId Counters

namespace Ledger

def empty : Ledger := ⟨.empty⟩

def counters (ledger : Ledger) (id : InstanceId) : Counters :=
  (ledger.accounts.get? id).getD .zero

def set (ledger : Ledger) (id : InstanceId) (counters : Counters) : Ledger :=
  { accounts := ledger.accounts.set id counters }

def reset (ledger : Ledger) (id : InstanceId) : Ledger := ledger.set id .zero

theorem counters_set (ledger : Ledger) (id other : InstanceId) (counters : Counters) :
    (ledger.set id counters).counters other =
      if other = id then counters else ledger.counters other := by
  unfold Ledger.counters Ledger.set
  rw [Table.get?_set]
  by_cases same : other = id <;> simp [same]

end Ledger

end InferenceStore
