import InferenceStore.Queue.Request

/-
Running a group. A group of one passes its inputs and its result through untouched. In a larger
group every input is the stack of the members' inputs, there is one run, and each member gets
its own rows of every output. A failure of the run, or an output that does not have as many rows
as the group has samples, is the result of every member.
-/

namespace InferenceStore.Group

def column (group : List Request) (position : Nat) : List Tensor :=
  group.filterMap fun request => request.inputs[position]?

def inputs : List Request → Outcome (List Tensor)
  | [] => .error (.backend .emptyBatch)
  | [only] => .ok only.inputs
  | first :: rest =>
      (List.range first.inputs.length).mapM fun position =>
        Tensor.stack (column (first :: rest) position)

/-- The one run. The first member says what is run and how many outputs are wanted. -/
def run (group : List Request) (inputs : Outcome (List Tensor)) : Outcome (List Tensor) :=
  match group, inputs with
  | _, .error cause => .error cause
  | [], .ok _ => .error (.backend .emptyBatch)
  | first :: _, .ok tensors => first.target.invoke tensors first.outputCount

def parts (sizes : List Nat) (outcome : Outcome (List Tensor)) : Outcome (List (List Tensor)) :=
  match outcome with
  | .error cause => .error cause
  | .ok outputs => outputs.mapM fun output => output.split sizes

/-- What every member gets, in the order of the group. The members are served from the last one
to the first, and each takes the last piece that is left of every output. -/
def serve : Nat → List (List Tensor) → List (Outcome (List Tensor))
  | 0, _ => []
  | others + 1, outputs =>
      serve others (outputs.map List.dropLast) ++ [.ok (outputs.filterMap List.getLast?)]

theorem length_serve (members : Nat) (outputs : List (List Tensor)) :
    (serve members outputs).length = members := by
  induction members generalizing outputs with
  | zero => rfl
  | succ others ih => rw [serve, List.length_append, ih, List.length_singleton]

def results (group : List Request) (outcome : Outcome (List Tensor)) :
    List (Outcome (List Tensor)) :=
  if group.length = 1 then [outcome]
  else
    match parts (group.map Request.batchSize) outcome with
    | .error cause => group.map fun _ => .error cause
    | .ok outputs => serve group.length outputs

def record (ledger : Ledger) (nanoseconds : Nat) :
    List (Request × Outcome (List Tensor)) → Ledger
  | [] => ledger
  | (request, result) :: rest =>
      record (request.target.record ledger nanoseconds result) nanoseconds rest

end InferenceStore.Group
