import InferenceStore.Proofs.Queue.Transparency

/-
How many outputs a request gets. A run that succeeds hands out as many tensors as were asked for,
and every member of a merged run gets its part of each of them. So a request gets as many as it
asked for, if the requests that share a run ask for the same number. They do when a model is
always asked for the outputs that it has, and each number names one model. Nothing else sees to
it: what the first member asked for is what every member of its group gets.
-/

namespace InferenceStore

/-- A model is asked for as many outputs as it has. -/
def Request.Equipped (request : Request) : Prop :=
  ∀ model, request.target = .model model → request.outputCount = model.outputCount

namespace Sample

def pair : Model :=
  { echo ⟨2, 2, 0⟩ with inputCount := 2, outputCount := 2, handle := ⟨2, 2, Except.ok⟩ }

def ask (id : RequestId) (outputCount : Nat) : Request :=
  { id := id
    target := .model pair
    inputs := [row, row]
    outputCount := outputCount
    deadline := none
    enqueuedAt := 0 }

/-- Two requests for one and for two outputs, which fill a batch. -/
def unequalPair : List Event :=
  [.openQueue .cpu 1, .push 0 (ask 0 1), .push 0 (ask 1 2), .look ⟨0, 0⟩, .returnCall ⟨0, 0⟩]

end Sample

theorem length_of_mapM {α β : Type} {f : α → Outcome β} {items : List α} {results : List β}
    (done : items.mapM f = .ok results) :
    results.length = items.length ∧ ∀ result ∈ results, ∃ item, f item = .ok result := by
  induction items generalizing results with
  | nil =>
      cases done
      exact ⟨rfl, fun _ member => (List.not_mem_nil member).elim⟩
  | cons item rest ih =>
      rw [List.mapM_cons] at done
      cases first : f item with
      | error cause =>
          rw [first] at done
          cases done
      | ok value =>
          cases others : rest.mapM f with
          | error cause =>
              rw [first, others] at done
              cases done
          | ok values =>
              rw [first, others] at done
              cases done
              obtain ⟨length, each⟩ := ih others
              refine ⟨congrArg (· + 1) length, ?_⟩
              exact List.forall_mem_cons.mpr ⟨⟨item, first⟩, each⟩

theorem Target.length_of_invoke {target : Target} {inputs outputs : List Tensor} {count : Nat}
    (gave : target.invoke inputs count = .ok outputs) : outputs.length = count := by
  unfold invoke at gave
  cases ran : target.backendRun inputs with
  | error cause =>
      rw [ran] at gave
      cases gave
  | ok tensors =>
      rw [ran] at gave
      simp only [bind, Except.bind, pure, Except.pure] at gave
      split at gave
      · cases gave
      · rename_i enough
        cases gave
        exact List.length_take_of_le (Nat.le_of_not_lt enough)

namespace Tensor

variable {tensor : Tensor} {sizes : List Nat} {parts : List Tensor}

theorem length_of_cutFrom {offset : Nat} (cut : tensor.cutFrom offset sizes = .ok parts) :
    parts.length = sizes.length := by
  induction sizes generalizing offset parts with
  | nil =>
      cases cut
      rfl
  | cons size rest ih =>
      cases first : tensor.rows offset size with
      | error cause => simp [cutFrom, first, bind, Except.bind] at cut
      | ok part =>
          cases others : tensor.cutFrom (wrapWord (offset + size)) rest with
          | error cause => simp [cutFrom, first, others, bind, Except.bind] at cut
          | ok behind =>
              simp only [cutFrom, first, others, bind, Except.bind, pure, Except.pure] at cut
              cases cut
              exact congrArg (· + 1) (ih others)

theorem length_of_split (cut : tensor.split sizes = .ok parts) : parts.length = sizes.length := by
  unfold split at cut
  split at cut
  · cases cut
  · exact length_of_cutFrom cut

end Tensor

namespace Group

variable {group : List Request} {sizes : List Nat}

theorem length_of_parts {outputs : List Tensor} {pieces : List (List Tensor)}
    (cut : parts sizes (.ok outputs) = .ok pieces) :
    pieces.length = outputs.length ∧ ∀ piece ∈ pieces, piece.length = sizes.length := by
  obtain ⟨length, each⟩ := length_of_mapM cut
  refine ⟨length, fun piece member => ?_⟩
  obtain ⟨output, split⟩ := each piece member
  exact Tensor.length_of_split split

theorem length_of_share {pieces : List (List Tensor)} {members member : Nat}
    (whole : ∀ piece ∈ pieces, piece.length = members) (within : member < members) :
    (pieces.filterMap fun piece => piece[member]?).length = pieces.length := by
  induction pieces with
  | nil => rfl
  | cons piece rest ih =>
      obtain ⟨length, others⟩ := List.forall_mem_cons.mp whole
      have taken := List.getElem?_eq_getElem (length.symm ▸ within)
      simp only [List.filterMap_cons, taken, List.length_cons, ih others]

theorem length_of_run {first : Request} {rest : List Request} {outputs : List Tensor}
    (gave : run (first :: rest) (inputs (first :: rest)) = .ok outputs) :
    outputs.length = first.outputCount := by
  unfold run at gave
  split at gave
  · cases gave
  · rename_i empty _
    cases empty
  · rename_i same _
    cases same
    exact Target.length_of_invoke gave

theorem length_of_results {first : Request} {rest : List Request} {outputs : List Tensor}
    (member : .ok outputs ∈
      results (first :: rest) (run (first :: rest) (inputs (first :: rest)))) :
    outputs.length = first.outputCount := by
  unfold results at member
  split at member
  · exact length_of_run (List.mem_singleton.mp member).symm
  · split at member
    · obtain ⟨_, _, same⟩ := List.mem_map.mp member
      cases same
    · rename_i pieces cut
      cases gave : run (first :: rest) (inputs (first :: rest)) with
      | error cause =>
          rw [gave] at cut
          cases cut
      | ok wholes =>
          rw [gave] at cut
          obtain ⟨length, each⟩ := length_of_parts cut
          rw [List.length_map] at each
          rw [serve_eq each] at member
          obtain ⟨position, inside, same⟩ := List.mem_map.mp member
          cases same
          rw [length_of_share each (List.mem_range.mp inside), length, length_of_run gave]

end Group

namespace Run

variable {history : History} {dispatcher : Dispatcher} {place : Nat} {group : List Request}

theorem counts_alike (run : Run history dispatcher) (identified : Identified history.pushed)
    (equipped : ∀ request ∈ history.pushed, request.Equipped)
    (selects : History.Selects history place group) {seed : Request} {others : List Request}
    (parts : group = seed :: others) : ∀ request ∈ group,
      request ∈ history.pushed ∧ request.outputCount = seed.outputCount := by
  obtain ⟨first, rest, same, pushed, accompanied, joins, _⟩ := run.exists_cohesive selects
  cases parts.symm.trans same
  intro request member
  refine ⟨pushed request member, ?_⟩
  rw [parts] at member pushed
  rcases List.mem_cons.mp member with rfl | inOthers
  · rfl
  · have batches : seed.policy.isEnabled = true := by
      have company := accompanied (List.ne_nil_of_mem inOthers)
      simp only [Selection.isAlone, Bool.or_eq_false_iff, Bool.not_eq_false'] at company
      exact company.1.1
    have seeded := pushed seed (List.mem_cons_self ..)
    have joined := pushed request member
    have loaded := identified request joined seed seeded
      (Request.canJoin_iff.mp (joins request inOthers)).1.symm
    cases target : seed.target with
    | script invocation =>
        simp [Request.policy, target, Target.policy, BatchPolicy.isEnabled, BatchPolicy.disabled]
          at batches
    | model model =>
        rw [target] at loaded
        rw [equipped seed seeded model target,
          equipped request joined model (Target.eq_of_loaded loaded)]

/-- Outputs come from the run of a group, and there are as many as its first member asked for. -/
theorem exists_group_of_result (run : Run history dispatcher) {id : RequestId}
    {outputs : List Tensor} (returned : dispatcher.result? id = some (.ok outputs)) :
    ∃ request place seed others, request.id = id ∧
      History.Selects history place (seed :: others) ∧ request ∈ seed :: others ∧
      outputs.length = seed.outputCount := by
  obtain ⟨request, ending, ended, same, result⟩ := (run.result?_iff id (.ok outputs)).mp returned
  cases ending with
  | timedOut => cases result
  | queueClosed => cases result
  | returned share =>
      cases result
      obtain ⟨moment, happened, here⟩ := List.mem_flatMap.mp ended
      obtain ⟨place, queue, group, found, runs, shared⟩ := Moment.runs_of_returned here
      have selects : History.Selects history place group := by
        obtain ⟨earlier, later, rfl⟩ := List.append_of_mem happened
        obtain ⟨look, looked, rest⟩ := run.before.1.running_selected found runs
        exact ⟨look, List.mem_append_left _ looked, rest⟩
      obtain ⟨member, among⟩ := List.of_mem_zip shared
      obtain ⟨seed, others, rfl, _⟩ := run.exists_cohesive selects
      exact ⟨request, place, seed, others, same, selects, member, Group.length_of_results among⟩

theorem length_of_result (run : Run history dispatcher) (identified : Identified history.pushed)
    (equipped : ∀ request ∈ history.pushed, request.Equipped) {id : RequestId}
    {outputs : List Tensor} (returned : dispatcher.result? id = some (.ok outputs)) :
    ∃ request ∈ history.pushed, request.id = id ∧ outputs.length = request.outputCount := by
  obtain ⟨request, place, seed, others, same, selects, member, length⟩ :=
    run.exists_group_of_result returned
  obtain ⟨pushed, count⟩ := run.counts_alike identified equipped selects rfl request member
  exact ⟨request, pushed, same, length.trans count.symm⟩

/-- A request that succeeds is a member of a group that was selected, and gets as many outputs as
the first of the group asked for. That is its own number exactly if the two are the same; nothing
that lets requests share a run compares them. -/
theorem counted_by_first (run : Run history dispatcher) {id : RequestId} {outputs : List Tensor}
    (returned : dispatcher.result? id = some (.ok outputs)) :
    ∃ request ∈ history.pushed, request.id = id ∧ ∃ place seed others,
      History.Selects history place (seed :: others) ∧ request ∈ seed :: others ∧
      (∀ other ∈ others, seed.canJoin other = true) ∧ outputs.length = seed.outputCount ∧
      (outputs.length = request.outputCount ↔ seed.outputCount = request.outputCount) := by
  obtain ⟨request, place, seed, others, same, selects, member, length⟩ :=
    run.exists_group_of_result returned
  obtain ⟨first, behind, parts, pushed, _, joins, _⟩ := run.exists_cohesive selects
  cases parts
  exact ⟨request, pushed request member, same, place, seed, others, selects, member, joins, length,
    by rw [length]⟩

/-- The second of two requests shares a run with the first, and gets its one output. -/
theorem second_counted_by_first : ∃ history dispatcher, Run history dispatcher ∧
    dispatcher.result? 1 = some (.ok [Sample.row]) ∧ ∃ request ∈ history.pushed, request.id = 1 ∧
      ∃ place seed others, History.Selects history place (seed :: others) ∧
        request ∈ seed :: others ∧ seed.outputCount = 1 := by
  obtain ⟨history, dispatcher, run, seen⟩ :=
    History.exists_run Sample.unequalPair (fun reached => reached.2.result? 1)
      (some (.ok [Sample.row])) (by cbv)
  obtain ⟨request, pushed, same, place, seed, others, selects, member, _, length, _⟩ :=
    run.counted_by_first seen
  exact ⟨history, dispatcher, run, seen, request, pushed, same, place, seed, others, selects,
    member, length.symm⟩

/-- A request for two outputs succeeds with one. -/
theorem succeeds_with_too_few : ∃ history dispatcher request outputs, Run history dispatcher ∧
    request ∈ history.pushed ∧ dispatcher.result? request.id = some (.ok outputs) ∧
      outputs.length ≠ request.outputCount := by
  obtain ⟨history, dispatcher, run, seen⟩ :=
    History.exists_run Sample.unequalPair
      (fun reached => (reached.1.pushed, reached.2.result? 1))
      ([Sample.ask 0 1, Sample.ask 1 2], some (.ok [Sample.row])) (by cbv)
  obtain ⟨pushed, result⟩ := Prod.mk.inj seen
  refine ⟨history, dispatcher, Sample.ask 1 2, [Sample.row], run, ?_, result, by decide⟩
  rw [pushed]
  exact List.mem_cons_of_mem _ (List.mem_singleton.mpr rfl)

end Run

end InferenceStore
