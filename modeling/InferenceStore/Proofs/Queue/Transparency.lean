import InferenceStore.Proofs.Queue.Merging
import InferenceStore.Proofs.Queue.Order

/-
Batching is not noticed. Whatever a worker runs was selected in one look from requests that were
waiting together, so what holds of merged requests holds of every group of every run.
-/

namespace InferenceStore

/-- What a queue's callers see to. Instances have numbers of their own and are asked for as many
outputs every time, dimensions are positive, and what waits together fits into a buffer. Rows of
positive dimensions take bytes, so the leading dimensions add up to a word too. -/
structure Promised (history : History) : Prop where
  identified : Identified history.pushed
  uniform : ∀ a ∈ history.pushed, ∀ b ∈ history.pushed,
    a.target.instanceId = b.target.instanceId → a.outputCount = b.outputCount
  positive : ∀ request ∈ history.pushed, ∀ tensor ∈ request.inputs,
    ∀ dimension ∈ tensor.shape, 0 < dimension
  bounded : ∀ moment ∈ history, ∀ queue ∈ moment.state.queues,
    sizeSum (queue.pending.map Request.byteLength) < wordLimit

theorem Target.eq_of_loaded {target : Target} {model : Model}
    (loaded : target.loaded = .model model) : target = .model model := by
  cases target with
  | model other => exact congrArg Target.model (Loaded.model.inj loaded)
  | script invocation => cases loaded

def History.Selects (history : History) (place : Nat) (group : List Request) : Prop :=
  ∃ moment ∈ history, ∃ queue, moment.state.queues[place]? = some queue ∧
    (queue.selection moment.state.now).group = group ∧ group ≠ []

namespace Sample

def rows : Tensor := ⟨.int8, [2, 1], [8, 9], by decide⟩

def through : Model := { echo ⟨3, 0, 0⟩ with handle := Arithmetic.Operation.identity.handle }

def hand (id : RequestId) (input : Tensor) : Request :=
  { request ⟨3, 0, 0⟩ id none with target := .model through, inputs := [input] }

end Sample

namespace RunQueue

variable {queue : RunQueue} {now : Nat} {event : Event} {group : List Request}

theorem running_after (permitted : queue.permits event = true)
    (runs : .running group ∈ (queue.after now event).workers) :
    .running group ∈ queue.workers ∨ (queue.selection now).group = group ∧ group ≠ [] := by
  have awake {workers : List Worker}
      (running : .running group ∈ workers.map fun worker =>
        if worker.isAsleep then .looking else worker) : .running group ∈ workers := by
    obtain ⟨worker, member, same⟩ := List.mem_map.mp running
    split at same
    · cases same
    · exact same ▸ member
  cases event with
  | push place request =>
      simp only [after] at runs
      split at runs
      · exact Or.inl (awake runs)
      · exact Or.inl runs
  | close place => exact Or.inl (awake runs)
  | look id =>
      rcases List.mem_or_eq_of_mem_set runs with before | same
      · exact Or.inl before
      · unfold duty at same
        split at same
        · cases same
        · split at same
          · cases same
          · rename_i found
            cases same
            exact Or.inr ⟨rfl, fun idle => found (by rw [idle]; rfl)⟩
  | returnCall id =>
      rcases List.mem_or_eq_of_mem_set runs with before | same
      · exact Or.inl before
      · cases same
  | wake id =>
      rcases List.mem_or_eq_of_mem_set runs with before | same
      · exact Or.inl before
      · cases same
  | _ => exact Or.inl runs

end RunQueue

theorem Moment.runs_of_returned {moment : Moment} {request : Request}
    {share : Outcome (List Tensor)} (returned : (request, .returned share) ∈ moment.endings) :
    ∃ (place : Nat) (queue : RunQueue) (group : List Request),
      moment.state.queues[place]? = some queue ∧ .running group ∈ queue.workers ∧
        (request, share) ∈ RunQueue.shares group := by
  obtain ⟨place, queue, _, found, ended⟩ := placed_of_mem_endings returned
  cases happened : moment.event with
  | returnCall id =>
      rw [happened] at ended
      obtain ⟨_, shared, same⟩ := List.mem_map.mp ended
      cases same
      cases workerAt : queue.workers[id.worker]? with
      | none => simp [workerAt, RunQueue.shares] at shared
      | some worker =>
          rw [workerAt] at shared
          cases worker with
          | running group =>
              exact ⟨place, queue, group, found, List.mem_of_getElem? workerAt, shared⟩
          | _ => simp [Worker.group, RunQueue.shares] at shared
  | push _ pushed =>
      rw [happened] at ended
      simp only [RunQueue.endings] at ended
      split at ended <;> simp at ended
  | _ => simp [happened, RunQueue.endings] at ended

namespace Run

variable {history : History} {dispatcher : Dispatcher} {place : Nat} {queue : RunQueue}
  {group : List Request}

theorem running_selected (run : Run history dispatcher)
    (found : dispatcher.queues[place]? = some queue) (runs : .running group ∈ queue.workers) :
    History.Selects history place group := by
  have here : History.Selects (history.of place) place group := by
    refine run.on_queue (motive := fun history _ queue =>
      Worker.running group ∈ queue.workers → History.Selects history place group)
      ?_ (fun _ kept => kept) ?_ found runs
    · intro _ device threads running
      cases List.eq_of_mem_replicate running
    · intro history dispatcher queue event _ found _ permitted before running
      rcases RunQueue.running_after permitted running with ran | ⟨selected, several⟩
      · obtain ⟨moment, member, rest⟩ := before ran
        exact ⟨moment, List.mem_append_left _ member, rest⟩
      · exact ⟨_, List.mem_append_right _ (List.mem_singleton.mpr rfl), queue, found, selected,
          several⟩
  obtain ⟨moment, member, rest⟩ := here
  exact ⟨moment, (List.mem_filter.mp member).1, rest⟩

/-- A selected group is a seed and requests that can join it, all of them pushed before and waiting
together. -/
theorem exists_cohesive (run : Run history dispatcher)
    (selects : History.Selects history place group) :
    ∃ seed others, group = seed :: others ∧ (∀ request ∈ group, request ∈ history.pushed) ∧
      (others ≠ [] → Selection.isAlone seed = false) ∧
      (∀ other ∈ others, seed.canJoin other = true) ∧
      ∃ moment ∈ history, ∃ queue ∈ moment.state.queues, group.Sublist queue.pending := by
  obtain ⟨moment, happened, queue, found, selected, several⟩ := selects
  have waited : group.Sublist queue.pending :=
    selected ▸ (Selection.group_sublist queue.pending moment.state.now).trans List.filter_sublist
  have pushed : ∀ request ∈ group, request ∈ history.pushed := by
    obtain ⟨earlier, later, rfl⟩ := List.append_of_mem happened
    intro request member
    rw [History.pushed_append]
    exact List.mem_append_left _ (run.before.1.pushed_of_pending found (waited.subset member))
  obtain ⟨seed, others, same, accompanied, joins⟩ :=
    (Selection.group_cohesive queue.pending moment.state.now).resolve_left fun idle =>
      several (selected.symm.trans idle)
  exact ⟨seed, others, selected.symm.trans same, pushed, accompanied, joins, moment, happened,
    queue, List.mem_of_getElem? found, waited⟩

theorem exists_seed (run : Run history dispatcher) (promised : Promised history)
    (selects : History.Selects history place group) :
    ∃ seed others, group = seed :: others ∧ (∀ request ∈ group, request ∈ history.pushed) ∧
      (∀ other ∈ others, seed.canJoin other = true) ∧
      (others ≠ [] → Group.Stackable seed others) := by
  obtain ⟨seed, others, parts, pushed, _, joins, moment, happened, queue, among, waited⟩ :=
    run.exists_cohesive selects
  refine ⟨seed, others, parts, pushed, joins, ?_⟩
  intro company
  refine ⟨joins, ?_, ?_, ?_⟩
  · obtain ⟨other, inOthers⟩ := List.exists_mem_of_ne_nil others company
    exact (Request.canJoin_iff.mp (joins other inOthers)).2.1
  · exact promised.positive seed (pushed seed (parts ▸ List.mem_cons_self ..))
  · rw [← parts]
    exact Nat.lt_of_le_of_lt (sizeSum_sublist (waited.map _))
      (promised.bounded moment happened queue among)

theorem targets_alike (run : Run history dispatcher) (promised : Promised history)
    (selects : History.Selects history place group) {request : Request} (member : request ∈ group)
    {model : Model} (target : request.target = .model model) :
    ∀ other ∈ group, other.target = .model model ∧ other.outputCount = request.outputCount := by
  obtain ⟨seed, others, parts, pushed, joins, _⟩ := run.exists_seed promised selects
  have seeded : ∀ other ∈ group, seed.target.instanceId = other.target.instanceId := by
    rw [parts]
    intro other inGroup
    rcases List.mem_cons.mp inGroup with same | inOthers
    · rw [same]
    · exact (Request.canJoin_iff.mp (joins other inOthers)).1
  intro other inGroup
  have same := (seeded other inGroup).symm.trans (seeded request member)
  have loaded := promised.identified other (pushed other inGroup) request (pushed request member)
    same
  rw [target] at loaded
  exact ⟨Target.eq_of_loaded loaded,
    promised.uniform other (pushed other inGroup) request (pushed request member) same⟩

theorem share_eq (run : Run history dispatcher) (promised : Promised history)
    (selects : History.Selects history place group) {request : Request}
    {share : Outcome (List Tensor)} (shared : (request, share) ∈ RunQueue.shares group)
    {model : Model} (target : request.target = .model model)
    {operation : Arithmetic.Operation} (handle : model.handle = operation.handle)
    (regular : operation ≠ .doubled) :
    share = request.target.invoke request.inputs request.outputCount := by
  have member : request ∈ group := (List.of_mem_zip shared).1
  have alike := run.targets_alike promised selects member target
  obtain ⟨seed, others, rfl, _, _, stackable⟩ := run.exists_seed promised selects
  have backend : (Target.model model).backendRun = operation.run :=
    congrArg ModelHandle.run handle
  have rowwise : ∀ wholes members, Stacked wholes members →
      Rowwise (Target.model model).backendRun wholes members := by
    intro wholes members stacked
    rw [backend]
    exact Arithmetic.Operation.rowwise regular stacked
  have results := Group.results_of_merged stackable rowwise
    (fun other inGroup => (alike other inGroup).1) fun other inGroup => (alike other inGroup).2
  rw [RunQueue.shares, results] at shared
  obtain ⟨position, placed⟩ := List.mem_iff_getElem?.mp shared
  obtain ⟨first, second⟩ := List.getElem?_zip_eq_some.mp placed
  rw [List.getElem?_map, first] at second
  exact (Option.some.inj second).symm

/-- Batching is transparent. In every run, a request to a model that works row by row and whose
group's call has returned has exactly the result that its own inputs give alone, be it outputs or
an error, whatever requests it was merged with. -/
theorem batching_transparent (run : Run history dispatcher) (promised : Promised history)
    {request : Request} {share : Outcome (List Tensor)}
    (returned : (request, .returned share) ∈ history.endings) {model : Model}
    (target : request.target = .model model) {operation : Arithmetic.Operation}
    (handle : model.handle = operation.handle) (regular : operation ≠ .doubled) :
    share = request.target.invoke request.inputs request.outputCount ∧
      dispatcher.result? request.id =
        some (request.target.invoke request.inputs request.outputCount) := by
  have result := (run.result?_iff request.id share).mpr
    ⟨request, .returned share, returned, rfl, rfl⟩
  have alone : share = request.target.invoke request.inputs request.outputCount := by
    obtain ⟨moment, happened, ended⟩ := List.mem_flatMap.mp returned
    obtain ⟨place, queue, group, found, runs, shared⟩ := Moment.runs_of_returned ended
    have selects : History.Selects history place group := by
      obtain ⟨earlier, later, rfl⟩ := List.append_of_mem happened
      obtain ⟨look, looked, rest⟩ := run.before.1.running_selected found runs
      exact ⟨look, List.mem_append_left _ looked, rest⟩
    exact run.share_eq promised selects shared target handle regular
  exact ⟨alone, alone ▸ result⟩

/-- One row and two rows share a run, and the two come back as they went in. -/
theorem two_rows_return_alone : ∃ history dispatcher,
    Run history dispatcher ∧ Promised history ∧
      (Sample.hand 1 Sample.rows, .returned (.ok [Sample.rows])) ∈ history.endings ∧
      dispatcher.result? 1 =
        some ((Sample.hand 1 Sample.rows).target.invoke [Sample.rows] 1) := by
  let one := Sample.hand 0 Sample.row
  let two := Sample.hand 1 Sample.rows
  obtain ⟨history, dispatcher, run, seen⟩ :=
    History.exists_run
      [.openQueue .cpu 1, .push 0 one, .push 0 two, .look ⟨0, 0⟩, .returnCall ⟨0, 0⟩]
      (fun reached => (reached.1.pushed, reached.1.endings,
        reached.1.flatMap fun moment => moment.state.queues.map fun queue =>
          sizeSum (queue.pending.map Request.byteLength)))
      ([one, two], [(one, .returned (.ok [Sample.row])), (two, .returned (.ok [Sample.rows]))],
        [0, 1, 3, 0]) (by cbv)
  simp only [Prod.mk.injEq] at seen
  obtain ⟨pushed, endings, lengths⟩ := seen
  have shared : ∀ request ∈ history.pushed,
      request.target = .model Sample.through ∧ request.outputCount = 1 := by
    rw [pushed]
    simp [one, two, Sample.hand, Sample.request]
  have promised : Promised history := by
    constructor
    · intro a inA b inB _
      rw [(shared a inA).1, (shared b inB).1]
    · intro a inA b inB _
      rw [(shared a inA).2, (shared b inB).2]
    · rw [pushed]
      simp [one, two, Sample.hand, Sample.row, Sample.rows]
    · intro moment happened queue among
      have length : sizeSum (queue.pending.map Request.byteLength) ∈ [0, 1, 3, 0] := by
        rw [← lengths]
        exact List.mem_flatMap.mpr ⟨moment, happened, List.mem_map_of_mem among⟩
      have small : ∀ length ∈ [0, 1, 3, 0], length < wordLimit := by decide
      exact small _ length
  have returned : (two, .returned (.ok [Sample.rows])) ∈ history.endings := by
    rw [endings]
    simp
  have target : two.target = .model Sample.through := rfl
  have handle : Sample.through.handle = Arithmetic.Operation.identity.handle := rfl
  have regular : Arithmetic.Operation.identity ≠ .doubled := by decide
  exact ⟨history, dispatcher, run, promised, returned,
    (run.batching_transparent promised returned target handle regular).2⟩

end Run

end InferenceStore
