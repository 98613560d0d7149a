import InferenceStore.Proofs.Queue.Custody
import Mathlib.Data.List.DropRight

/-
What the counters of an instance say. Only the return of a call enters anything into the books, and
it enters every member of the group as one run of its own, with what that member itself was given.
So after any events the counters of an instance are those of its runs since they were last reset:
how they were grouped does not show, nor who still waits for them, nor what other instances did.
-/

namespace InferenceStore

/-- A request that was run, with what it was given. -/
abbrev Ran := Request × Outcome (List Tensor)

/-- What a run is worth if it succeeds: the leading dimension of the first output for a model, and
one sample for a script. -/
def Target.worth : Target → List Tensor → Nat
  | .script _, _ => 1
  | .model _, [] => 0
  | .model _, first :: _ => first.shape.headD 0

namespace Ran

def isOf (id : InstanceId) (ran : Ran) : Bool := ran.1.target.instanceId == id

def failed (ran : Ran) : Bool :=
  match ran.2 with
  | .ok _ => false
  | .error _ => true

def worth (ran : Ran) : Nat :=
  match ran.2 with
  | .ok outputs => ran.1.target.worth outputs
  | .error _ => 0

end Ran

/-- Counters that count these runs and nothing else. Each is a word. -/
structure Counts (counters : Counters) (runs : List Ran) : Prop where
  calls : counters.calls = wrapWord runs.length
  errors : counters.errors = wrapWord (runs.countP Ran.failed)
  samples : counters.samples = wrapWord (sizeSum (runs.map Ran.worth))

namespace Counters

def enter (counters : Counters) (ran : Ran) : Counters :=
  match ran.2 with
  | .ok outputs => counters.countSuccess 0 (ran.1.target.samples outputs)
  | .error _ => counters.countError

end Counters

namespace Ending

def share? : Ending → Option (Outcome (List Tensor))
  | .returned share => some share
  | _ => none

def runs (endings : List (Request × Ending)) : List Ran :=
  endings.filterMap fun ending => ending.2.share?.map fun share => (ending.1, share)

end Ending

def Event.resets (id : InstanceId) : Event → Bool
  | .reset account => account == id
  | _ => false

namespace History

/-- What has happened since the counters of an instance were last reset, if ever. -/
def since (history : History) (id : InstanceId) : History :=
  history.rtakeWhile fun moment => !moment.event.resets id

def runs (history : History) (id : InstanceId) : List Ran :=
  (Ending.runs (history.since id).endings).filter (Ran.isOf id)

end History

/-! ### Counting -/

theorem Target.samples_eq (target : Target) (outputs : List Tensor) :
    target.samples outputs = target.worth outputs := by
  cases target <;> cases outputs <;> rfl

private theorem wrapWord_add (a b : Nat) : wrapWord (wrapWord a + b) = wrapWord (a + b) :=
  Nat.mod_add_mod ..

namespace Counts

variable {counters : Counters} {runs : List Ran}

theorem zero : Counts .zero [] := ⟨rfl, rfl, rfl⟩

theorem enter (counts : Counts counters runs) (ran : Ran) :
    Counts (counters.enter ran) (runs ++ [ran]) := by
  obtain ⟨request, result⟩ := ran
  have calls : wrapWord (counters.calls + 1) = wrapWord (runs ++ [(request, result)]).length := by
    rw [counts.calls, wrapWord_add, List.length_append, List.length_singleton]
  cases result with
  | ok outputs =>
      refine ⟨calls, ?_, ?_⟩
      · simpa [Counters.enter, Counters.countSuccess, Ran.failed] using counts.errors
      · simp [Counters.enter, Counters.countSuccess, counts.samples, wrapWord_add, Ran.worth,
          Target.samples_eq, sizeSum_append, sizeSum]
  | error cause =>
      refine ⟨calls, ?_, ?_⟩
      · simp [Counters.enter, Counters.countError, counts.errors, wrapWord_add, Ran.failed]
      · simpa [Counters.enter, Counters.countError, Ran.worth, sizeSum_append, sizeSum] using
          counts.samples

theorem enterAll (counts : Counts counters runs) (more : List Ran) :
    Counts (more.foldl Counters.enter counters) (runs ++ more) := by
  induction more generalizing counters runs with
  | nil => simpa using counts
  | cons ran rest ih =>
      have entered := ih (counts.enter ran)
      rwa [List.append_assoc, List.singleton_append] at entered

/-- As long as the calls fit into a word, no more errors than calls are counted. -/
theorem errors_le (counts : Counts counters runs) (fit : runs.length < wordLimit) :
    counters.errors ≤ counters.calls := by
  rw [counts.errors, counts.calls, wrapWord, wrapWord, Nat.mod_eq_of_lt fit]
  exact Nat.le_trans (Nat.mod_le ..) List.countP_le_length

end Counts

theorem Group.counters_record (ledger : Ledger) (runs : List Ran) (id : InstanceId) :
    (Group.record ledger 0 runs).counters id =
      (runs.filter (Ran.isOf id)).foldl Counters.enter (ledger.counters id) := by
  induction runs generalizing ledger with
  | nil => rfl
  | cons ran rest ih =>
      obtain ⟨request, result⟩ := ran
      have entered : (request.target.record ledger 0 result).counters id =
          if id = request.target.instanceId then
            (ledger.counters request.target.instanceId).enter (request, result)
          else ledger.counters id := by
        unfold Target.record
        rw [Ledger.counters_set]
        cases result <;> rfl
      rw [Group.record, ih, entered]
      by_cases own : request.target.instanceId = id
      · subst own
        simp [Ran.isOf]
      · simp [Ran.isOf, own, Ne.symm own]

/-! ### Entering -/

namespace Ending

theorem runs_of_share (ending : Ending) (waited : ending.share? = none) (requests : List Request) :
    runs (requests.map fun request => (request, ending)) = [] := by
  simp [runs, waited]

theorem runs_returned (shares : List Ran) :
    runs (shares.map fun share => (share.1, .returned share.2)) = shares := by
  simp [runs, share?]

theorem runs_append (front back : List (Request × Ending)) :
    runs (front ++ back) = runs front ++ runs back :=
  List.filterMap_append

theorem ids_runs (endings : List (Request × Ending)) :
    ((runs endings).map fun ran => ran.1.id).Sublist (endings.map fun ending => ending.1.id) := by
  induction endings with
  | nil => exact List.Sublist.refl _
  | cons ending rest ih =>
      obtain ⟨request, ending⟩ := ending
      cases ending with
      | returned share => exact ih.cons_cons request.id
      | timedOut => exact ih.cons request.id
      | queueClosed => exact ih.cons request.id

theorem mem_runs {endings : List (Request × Ending)} {ran : Ran} :
    ran ∈ runs endings ↔ (ran.1, .returned ran.2) ∈ endings := by
  obtain ⟨request, result⟩ := ran
  unfold runs
  rw [List.mem_filterMap]
  constructor
  · rintro ⟨⟨other, ending⟩, member, shared⟩
    cases ending <;> cases shared
    exact member
  · exact fun member => ⟨_, member, rfl⟩

end Ending

namespace Dispatcher

variable {dispatcher : Dispatcher} {event : Event}

private theorem ledger_wakeQueue (dispatcher : Dispatcher) (place : Nat) :
    (dispatcher.wakeQueue place).ledger = dispatcher.ledger := by
  unfold wakeQueue
  split <;> rfl

private theorem ledger_completeAll (dispatcher : Dispatcher) (requests : List Request)
    (ending : Ending) :
    (dispatcher.completeAll requests ending.result).ledger = dispatcher.ledger := by
  rw [completeAll_eq]

/-- An event that does not reset anything enters the runs that it hands out. -/
theorem ledger_after (permitted : dispatcher.permits event = true)
    (counting : ∀ account, event ≠ .reset account) :
    (dispatcher.after event).ledger =
      Group.record dispatcher.ledger 0 (Ending.runs (Moment.endings ⟨dispatcher, event⟩)) := by
  cases placed : event.place? with
  | none =>
      rw [Moment.endings_of_no_place placed]
      cases event with
      | openQueue device threads => rfl
      | advance moment => rfl
      | reset account => exact absurd rfl (counting account)
      | _ => cases placed
  | some place =>
      obtain ⟨queue, found, allowed⟩ := permits_place placed permitted
      rw [Moment.endings_eq placed found]
      cases event with
      | push _ request =>
          cases placed
          have nothing : Ending.runs (queue.endings dispatcher.now (.push place request)) = [] := by
            simp only [RunQueue.endings]
            split <;> rfl
          rw [nothing]
          simp only [after, push, found]
          split
          · rfl
          · exact ledger_wakeQueue ..
      | close _ =>
          cases placed
          rw [RunQueue.endings, Ending.runs_of_share .queueClosed rfl]
          simp only [after, close, found]
          exact (ledger_wakeQueue ..).trans (ledger_completeAll _ _ .queueClosed)
      | look id =>
          cases placed
          rw [RunQueue.endings, Ending.runs_of_share .timedOut rfl]
          simp only [after, look, found]
          split
          · rfl
          · split <;> exact ledger_completeAll _ _ .timedOut
      | returnCall id =>
          cases placed
          obtain ⟨worker, workerAt, running⟩ := (Option.any_eq_true ..).mp allowed
          cases worker with
          | running group =>
              simp only [after, returnCall, found, workerAt, deliver_eq, RunQueue.endings,
                Option.elim_some, Worker.group, Ending.runs_returned]
              rfl
          | _ => cases running
      | wake id =>
          cases placed
          simp only [after, wake, found]
          rfl
      | _ => cases placed

theorem counters_after {id : InstanceId} (permitted : dispatcher.permits event = true)
    (counting : event.resets id = false) :
    (dispatcher.after event).ledger.counters id =
      ((Ending.runs (Moment.endings ⟨dispatcher, event⟩)).filter (Ran.isOf id)).foldl
        Counters.enter (dispatcher.ledger.counters id) := by
  by_cases other : ∃ account, event = .reset account
  · obtain ⟨account, rfl⟩ := other
    have apart : id ≠ account := by
      rintro rfl
      simp [Event.resets] at counting
    have kept := Ledger.counters_set dispatcher.ledger account id .zero
    rw [if_neg apart] at kept
    exact kept
  · rw [ledger_after permitted fun account same => other ⟨account, same⟩, Group.counters_record]

end Dispatcher

namespace History

variable {history : History} {dispatcher : Dispatcher} {event : Event} {id : InstanceId}

theorem runs_of_reset (resets : event.resets id = true) :
    History.runs (history ++ [⟨dispatcher, event⟩]) id = [] := by
  simp [runs, since, resets, endings, Ending.runs]

theorem runs_snoc (counting : event.resets id = false) :
    History.runs (history ++ [⟨dispatcher, event⟩]) id = history.runs id ++
      (Ending.runs (Moment.endings ⟨dispatcher, event⟩)).filter (Ran.isOf id) := by
  have extended : since (history ++ [⟨dispatcher, event⟩]) id =
      history.since id ++ [⟨dispatcher, event⟩] := by
    simp [since, counting]
  rw [runs, extended, endings_snoc, Ending.runs_append, List.filter_append, runs]

theorem mem_runs {ran : Ran} : ran ∈ history.runs id ↔
    ran.1.target.instanceId = id ∧ (ran.1, .returned ran.2) ∈ (history.since id).endings := by
  rw [runs, List.mem_filter, Ending.mem_runs, and_comm, Ran.isOf, beq_iff_eq]

end History

/-! ### Books -/

/-- The books of an instance. The counters are words, and what they count is told by the history:
the runs of the instance that were handed out since they were last reset. -/
structure Booked (history : History) (dispatcher : Dispatcher) (id : InstanceId) : Prop where
  counts : Counts (dispatcher.ledger.counters id) (history.runs id)
  failures : (history.runs id).countP Ran.failed ≤ (history.runs id).length
  errors_le : (history.runs id).length < wordLimit →
    (dispatcher.ledger.counters id).errors ≤ (dispatcher.ledger.counters id).calls
  counted : ∀ request share, (request, share) ∈ history.runs id ↔
    request.target.instanceId = id ∧ (request, .returned share) ∈ (history.since id).endings
  once : ((history.runs id).map fun ran => ran.1.id).Nodup
  /-- What was counted is what the request has got. -/
  given : ∀ request share, (request, share) ∈ history.runs id →
    dispatcher.result? request.id = some share
  /-- Requests that expire or find their queue closed, and runs of others, change nothing. -/
  undisturbed : ∀ event, dispatcher.permits event = true → event.resets id = false →
    (∀ request share, (request, .returned share) ∈ Moment.endings ⟨dispatcher, event⟩ →
      request.target.instanceId ≠ id) →
    (dispatcher.after event).ledger.counters id = dispatcher.ledger.counters id

namespace Run

variable {history : History} {dispatcher : Dispatcher}

theorem counts (run : Run history dispatcher) (id : InstanceId) :
    Counts (dispatcher.ledger.counters id) (history.runs id) := by
  induction run with
  | start => exact .zero
  | @step history dispatcher run event permitted fresh ih =>
      cases resets : event.resets id with
      | true =>
          rw [History.runs_of_reset resets]
          cases event with
          | reset account =>
              have zero := Ledger.counters_set dispatcher.ledger account id .zero
              rw [if_pos (eq_of_beq resets).symm] at zero
              exact zero ▸ Counts.zero
          | _ => cases resets
      | false =>
          rw [History.runs_snoc resets, Dispatcher.counters_after permitted resets]
          exact ih.enterAll _

theorem ended_of_runs {id : InstanceId} {ran : Ran} (counted : ran ∈ history.runs id) :
    (ran.1, .returned ran.2) ∈ history.endings := by
  obtain ⟨_, member⟩ := History.mem_runs.mp counted
  obtain ⟨moment, recent, ended⟩ := List.mem_flatMap.mp member
  exact List.mem_flatMap.mpr ⟨moment, (List.rtakeWhile_suffix _ _).subset recent, ended⟩

theorem runs_once (run : Run history dispatcher) (id : InstanceId) :
    ((history.runs id).map fun ran => ran.1.id).Nodup := by
  obtain ⟨earlier, whole⟩ := List.rtakeWhile_suffix (fun moment => !moment.event.resets id) history
  have recent : (history.since id).endings.Sublist history.endings := by
    have parted : history.endings = History.endings earlier ++ (history.since id).endings :=
      (congrArg History.endings whole).symm.trans List.flatMap_append
    rw [parted]
    exact List.sublist_append_right ..
  have own : (history.runs id).Sublist (Ending.runs (history.since id).endings) :=
    List.filter_sublist
  have ids := (own.map fun ran => ran.1.id).trans (Ending.ids_runs _)
  exact (ids.trans (recent.map _)).nodup run.endings_distinct

/-- In every run, whatever the interleaving, the counters of an instance account for its runs since
they were last reset, one by one, and for nothing else. -/
theorem booked (run : Run history dispatcher) (id : InstanceId) :
    Booked history dispatcher id where
  counts := run.counts id
  failures := List.countP_le_length
  errors_le := (run.counts id).errors_le
  counted _ _ := History.mem_runs
  once := run.runs_once id
  given request share counted :=
    (run.result?_iff request.id share).mpr
      ⟨request, .returned share, ended_of_runs counted, rfl, rfl⟩
  undisturbed event permitted counting others := by
    have absent : (Ending.runs (Moment.endings ⟨dispatcher, event⟩)).filter (Ran.isOf id) = [] := by
      apply List.filter_eq_nil_iff.mpr
      intro ran handed own
      exact others ran.1 ran.2 (Ending.mem_runs.mp handed) (eq_of_beq own)
    rw [Dispatcher.counters_after permitted counting, absent]
    rfl

end Run

namespace Sample

def failing : Model :=
  { echo ⟨2, 0, 0⟩ with id := 1, handle := ⟨1, 1, fun _ => .error (.backend .emptyBatch)⟩ }

def fail (id : RequestId) : Request :=
  { request ⟨2, 0, 0⟩ id none with target := .model failing }

end Sample

namespace Run

/-- Two runs are counted and forgotten at a reset. Then two requests share a run, one expires and
one is too late, while another model fails in a queue of its own. -/
theorem booked_since_reset : ∃ history dispatcher, Run history dispatcher ∧
    Booked history dispatcher 0 ∧
      (history.runs 0).map (fun ran => ran.1.id) = [3, 4] ∧
      dispatcher.ledger.counters 0 = ⟨0, 2, 2, 0⟩ ∧ dispatcher.ledger.counters 1 = ⟨0, 0, 1, 1⟩ := by
  obtain ⟨history, dispatcher, run, seen⟩ :=
    History.exists_run
      [ .openQueue .cpu 2,
        .openQueue ⟨.gpu, none⟩ 1,
        .push 0 (Sample.request ⟨2, 0, 0⟩ 0 none),
        .push 0 (Sample.request ⟨2, 0, 0⟩ 1 none),
        .look ⟨0, 0⟩,
        .push 1 (Sample.fail 2),
        .look ⟨1, 0⟩,
        .returnCall ⟨0, 0⟩,
        .reset 0,
        .push 0 (Sample.request ⟨2, 0, 0⟩ 3 none),
        .push 0 (Sample.request ⟨2, 0, 0⟩ 4 none),
        .look ⟨0, 0⟩,
        .push 0 (Sample.request ⟨2, 0, 0⟩ 5 (some 7)),
        .advance 7,
        .look ⟨0, 1⟩,
        .returnCall ⟨1, 0⟩,
        .returnCall ⟨0, 0⟩,
        .close 0,
        .push 0 (Sample.request ⟨2, 0, 0⟩ 6 none) ]
      (fun reached => ((reached.1.runs 0).map fun ran => ran.1.id, reached.2.ledger.counters 0,
        reached.2.ledger.counters 1))
      ([3, 4], ⟨0, 2, 2, 0⟩, ⟨0, 0, 1, 1⟩) (by decide +kernel)
  obtain ⟨counted, seen⟩ := Prod.mk.inj seen
  obtain ⟨own, other⟩ := Prod.mk.inj seen
  exact ⟨history, dispatcher, run, run.booked 0, counted, own, other⟩

end Run

end InferenceStore
