import InferenceStore.Proofs.Queue.Accounting

/-
Who answers for a request. The table of results holds the one ending of every request that has
come to an end, and nothing else. A request ends in one of three ways: a look finds it expired,
its queue is closed, or the call of its group returns. A call that is out stays with its worker
through every other event, a close among them, and its return answers the whole group.
-/

namespace InferenceStore

namespace Dispatcher

variable {endings : List (Request × Ending)} {request : Request} {ending : Ending}

theorem settle_append (results : Table RequestId (Outcome (List Tensor)))
    (front back : List (Request × Ending)) :
    settle results (front ++ back) = settle (settle results front) back :=
  List.foldl_append

theorem get?_settle_of_absent {id : RequestId}
    (absent : id ∉ endings.map fun ending => ending.1.id)
    (results : Table RequestId (Outcome (List Tensor))) :
    (settle results endings).get? id = results.get? id := by
  induction endings generalizing results with
  | nil => rfl
  | cons first rest ih =>
      obtain ⟨apart, inRest⟩ := not_or.mp (fun either => absent (List.mem_cons.mpr either))
      have entered := Table.get?_set results first.1.id id first.2.result
      rw [if_neg apart] at entered
      exact (ih inRest _).trans entered

theorem get?_settle_of_mem (distinct : (endings.map fun ending => ending.1.id).Nodup)
    (member : (request, ending) ∈ endings) (results : Table RequestId (Outcome (List Tensor))) :
    (settle results endings).get? request.id = some ending.result := by
  induction endings generalizing results with
  | nil => cases member
  | cons first rest ih =>
      obtain ⟨apart, others⟩ := List.nodup_cons.mp distinct
      rcases List.mem_cons.mp member with same | inRest
      · subst same
        have entered := Table.get?_set results request.id request.id ending.result
        rw [if_pos rfl] at entered
        exact (get?_settle_of_absent apart _).trans entered
      · exact ih others inRest _

end Dispatcher

open Dispatcher

/-! ### Results -/

namespace Run

variable {history : History} {dispatcher : Dispatcher} {place : Nat} {queue : RunQueue}

theorem results_eq (run : Run history dispatcher) :
    dispatcher.results = settle .empty history.endings := by
  induction run with
  | start => rfl
  | @step history dispatcher run event permitted fresh ih =>
      rw [History.endings_snoc, settle_append, ← ih]
      cases placed : event.place? with
      | some place =>
          obtain ⟨queue, found, allowed⟩ := permits_place placed permitted
          rw [Moment.endings_eq placed found]
          exact (Change.of_place placed found allowed).results
      | none =>
          rw [Moment.endings_of_no_place placed]
          cases event <;> first | rfl | cases placed

/-- A request has a result as soon as it has come to an end, and the result is that of its one
ending. -/
theorem result?_iff (run : Run history dispatcher) (id : RequestId)
    (result : Outcome (List Tensor)) :
    dispatcher.result? id = some result ↔
      ∃ request ending, (request, ending) ∈ history.endings ∧ request.id = id ∧
        ending.result = result := by
  unfold Dispatcher.result?
  rw [run.results_eq]
  constructor
  · intro found
    by_cases present : id ∈ history.endings.map fun ending => ending.1.id
    · obtain ⟨⟨request, ending⟩, member, rfl⟩ := List.mem_map.mp present
      rw [get?_settle_of_mem run.endings_distinct member] at found
      exact ⟨request, ending, member, rfl, Option.some.inj found⟩
    · rw [get?_settle_of_absent present] at found
      cases found
  · rintro ⟨request, ending, member, rfl, rfl⟩
    exact get?_settle_of_mem run.endings_distinct member .empty

end Run

/-! ### Ways to end -/

namespace Moment

/-- A look at or after its deadline finds the request waiting. -/
def FindsExpired (moment : Moment) (request : Request) : Prop :=
  ∃ id queue deadline, moment.event = .look id ∧ moment.state.queues[id.queue]? = some queue ∧
    request ∈ queue.pending ∧ request.deadline = some deadline ∧ deadline ≤ moment.state.now

variable {moment : Moment} {request : Request}

theorem placed_of_mem_endings {ending : Ending} (member : (request, ending) ∈ moment.endings) :
    ∃ place queue, moment.event.place? = some place ∧ moment.state.queues[place]? = some queue ∧
      (request, ending) ∈ queue.endings moment.state.now moment.event := by
  cases placed : moment.event.place? with
  | none =>
      have nothing : moment.endings = [] := endings_of_no_place placed
      rw [nothing] at member
      cases member
  | some place =>
      cases found : moment.state.queues[place]? with
      | none => simp [endings, Dispatcher.queueOf?, placed, found] at member
      | some queue =>
          have same : moment.endings = queue.endings moment.state.now moment.event :=
            endings_eq placed found
          exact ⟨place, queue, rfl, found, same ▸ member⟩

theorem isExpired_iff {now : Nat} : request.isExpired now = true ↔
    ∃ deadline, request.deadline = some deadline ∧ deadline ≤ now := by
  unfold Request.isExpired
  cases request.deadline <;> simp

theorem timedOut_iff : (request, .timedOut) ∈ moment.endings ↔ moment.FindsExpired request := by
  constructor
  · intro member
    obtain ⟨place, queue, placed, found, ended⟩ := placed_of_mem_endings member
    cases happened : moment.event with
    | look id =>
        rw [happened] at placed ended
        cases placed
        obtain ⟨other, expired, same⟩ := List.mem_map.mp ended
        cases same
        obtain ⟨waits, passed⟩ := Selection.mem_expired.mp expired
        obtain ⟨deadline, timed, reached⟩ := isExpired_iff.mp passed
        exact ⟨id, queue, deadline, happened, found, waits, timed, reached⟩
    | push _ pushed =>
        rw [happened] at ended
        simp only [RunQueue.endings] at ended
        split at ended <;> simp at ended
    | close _ => simp [happened, RunQueue.endings] at ended
    | returnCall _ => simp [happened, RunQueue.endings] at ended
    | _ => simp [happened, Event.place?, RunQueue.endings] at placed ended
  · rintro ⟨id, queue, deadline, happened, found, waits, timed, reached⟩
    have placed : moment.event.place? = some id.queue := by rw [happened]; rfl
    have same : moment.endings = queue.endings moment.state.now moment.event :=
      endings_eq placed found
    rw [same, happened]
    exact List.mem_map.mpr ⟨request,
      Selection.mem_expired.mpr ⟨waits, isExpired_iff.mpr ⟨deadline, timed, reached⟩⟩, rfl⟩

end Moment

/-! ### Closed queues -/

def History.Closes (history : History) (place : Nat) : Prop :=
  ∃ moment ∈ history, moment.event = .close place

namespace RunQueue

variable {queue : RunQueue} {now : Nat} {event : Event}

theorem stays_closed (closed : queue.waiting = none) (now : Nat) (event : Event) :
    (queue.after now event).waiting = none := by
  cases event <;> simp [after, isOpen, closed, setWorker, wakeAll]

theorem stays_open {place : Nat} (placed : event.place? = some place)
    (other : event ≠ .close place) (isOpen : queue.waiting ≠ none) :
    (queue.after now event).waiting ≠ none := by
  cases event with
  | push _ request =>
      obtain ⟨waiting, found⟩ := Option.ne_none_iff_exists'.mp isOpen
      simp [after, RunQueue.isOpen, found, wakeAll]
  | close _ =>
      cases placed
      exact absurd rfl other
  | look id => simpa [after, setWorker] using isOpen
  | returnCall id => exact isOpen
  | wake id => exact isOpen
  | _ => cases placed

end RunQueue

namespace Run

variable {history : History} {dispatcher : Dispatcher} {place : Nat} {queue : RunQueue}

theorem closed_iff (run : Run history dispatcher)
    (found : dispatcher.queues[place]? = some queue) :
    queue.waiting = none ↔ history.Closes place := by
  have here : queue.waiting = none ↔ (history.of place).Closes place := by
    refine run.on_queue (motive := fun history _ queue =>
      queue.waiting = none ↔ history.Closes place) ?_ (fun _ kept => kept) ?_ found
    · intro _ device threads
      constructor
      · intro closed
        cases closed
      · rintro ⟨moment, member, _⟩
        cases member
    · intro history dispatcher queue event _ _ placed _ before
      constructor
      · intro closed
        by_cases now : event = .close place
        · exact ⟨_, List.mem_append_right _ (List.mem_singleton.mpr rfl), now⟩
        · have already : queue.waiting = none :=
            Decidable.not_not.mp fun isOpen => RunQueue.stays_open placed now isOpen closed
          obtain ⟨moment, member, closes⟩ := before.mp already
          exact ⟨moment, List.mem_append_left _ member, closes⟩
      · rintro ⟨moment, member, closes⟩
        rcases List.mem_append.mp member with earlier | last
        · exact RunQueue.stays_closed (before.mpr ⟨moment, earlier, closes⟩) _ _
        · cases List.mem_singleton.mp last
          have same : event = .close place := closes
          rw [same]
          rfl
  rw [here]
  constructor
  · rintro ⟨moment, member, closes⟩
    exact ⟨moment, (List.mem_filter.mp member).1, closes⟩
  · rintro ⟨moment, member, closes⟩
    exact ⟨moment, List.mem_filter.mpr ⟨member, by simp [closes, Event.place?]⟩, closes⟩

end Run

end InferenceStore
