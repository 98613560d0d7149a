import InferenceStore.Proofs.Queue.Selection
import InferenceStore.Proofs.Queue.Step
import Mathlib.Data.List.Permutation

/-
No worker sleeps through work. A push or a close turns every sleeper of its queue back to looking,
so a worker that is still asleep has heard of nothing since its last look. What it noted at that
look stays true: the queue has not grown, and as long as its moment has not come no other look
finds anything in it either, so the queue has not shrunk.
-/

namespace InferenceStore

/-- Until a sleeper wakes there is nothing to find in its queue. -/
def RunQueue.Quiet (queue : RunQueue) (now : Nat) : Prop :=
  ∀ moment, Worker.asleep moment ∈ queue.workers → ∀ time, now ≤ time → time < moment →
    Selection.Idle queue.pending time

namespace RunQueue

variable {queue : RunQueue} {now : Nat}

theorem Quiet.later {moment : Nat} (quiet : queue.Quiet now) (onward : now ≤ moment) :
    queue.Quiet moment :=
  fun wakeAt sleeps time reached early =>
    quiet wakeAt sleeps time (Nat.le_trans onward reached) early

theorem quiet_wakeAll (queue : RunQueue) (now : Nat) : queue.wakeAll.Quiet now := by
  intro moment sleeps
  obtain ⟨worker, _, same⟩ := List.mem_map.mp sleeps
  split at same
  · cases same
  · rename_i awake
    rw [same] at awake
    exact absurd rfl awake

theorem Quiet.setWorker (quiet : queue.Quiet now) (index : Nat) :
    (queue.setWorker index .looking).Quiet now := by
  intro moment sleeps
  rcases List.mem_or_eq_of_mem_set sleeps with before | same
  · exact quiet moment before
  · cases same

theorem asleep_of_duty {moment : Nat} (sleeps : queue.duty now = .asleep moment) :
    (queue.selection now).group = [] ∧
      moment = (queue.selection now).wakeAt.getD (now + Dispatcher.idleWait) := by
  unfold duty at sleeps
  split at sleeps
  · cases sleeps
  · split at sleeps
    · rename_i idle
      cases sleeps
      exact ⟨List.isEmpty_iff.mp idle, rfl⟩
    · cases sleeps

theorem Quiet.look (quiet : queue.Quiet now) (id : WorkerId) :
    (queue.after now (.look id)).Quiet now := by
  intro moment sleeps time reached early
  rw [pending_after_look]
  rcases List.mem_or_eq_of_mem_set sleeps with before | same
  · -- Another sleeper's moment is still to come, so this look found nothing.
    have idle := quiet moment before now (Nat.le_refl now) (Nat.lt_of_le_of_lt reached early)
    have unchanged : (queue.selection now).waiting = queue.pending := idle.waiting_eq
    rw [unchanged]
    exact quiet moment before time reached early
  · obtain ⟨idle, wakeAt⟩ := asleep_of_duty same.symm
    apply Selection.idle_before_wakeAt idle
    intro noted found
    have noted' : (queue.selection now).wakeAt = some noted := found
    rw [noted', Option.getD_some] at wakeAt
    exact wakeAt ▸ early

theorem Quiet.after {event : Event} (quiet : queue.Quiet now) :
    (queue.after now event).Quiet now := by
  cases event with
  | push place request =>
      simp only [RunQueue.after]
      split
      · exact quiet_wakeAll _ now
      · exact quiet
  | close place => exact quiet_wakeAll _ now
  | look id => exact quiet.look id
  | returnCall id => exact quiet.setWorker id.worker
  | wake id => exact quiet.setWorker id.worker
  | openQueue device threads => exact quiet
  | advance moment => exact quiet
  | reset account => exact quiet

theorem quiet_opened (device : Device) (threads now : Nat) :
    (RunQueue.opened device threads).Quiet now := by
  intro moment sleeps
  cases List.eq_of_mem_replicate sleeps

end RunQueue

namespace Run

variable {history : History} {dispatcher : Dispatcher} {place : Nat} {queue : RunQueue}

theorem quiet (run : Run history dispatcher) (found : dispatcher.queues[place]? = some queue) :
    queue.Quiet dispatcher.now :=
  run.on_queue (motive := fun _ now queue => queue.Quiet now)
    (fun now device threads => RunQueue.quiet_opened device threads now)
    (fun onward quiet => quiet.later onward)
    (fun _ _ _ _ quiet => quiet.after) found

/-- No lost wake-up. While a worker is asleep and has not been woken since its last look, a look at
any moment from now up to the one it sleeps until would find neither a group nor an expired
request; so what can be found at some moment is found by then, when the worker wakes. -/
theorem nothing_found_before_wake (run : Run history dispatcher)
    (found : dispatcher.queues[place]? = some queue) {index moment : Nat}
    (sleeps : queue.workers[index]? = some (.asleep moment)) :
    (∀ time, dispatcher.now ≤ time → time < moment →
      (Selection.ofQueue queue.pending time).group = [] ∧
        (Selection.ofQueue queue.pending time).expired = []) ∧
    ∀ time, dispatcher.now ≤ time →
      (Selection.ofQueue queue.pending time).group ≠ [] ∨
        (Selection.ofQueue queue.pending time).expired ≠ [] → moment ≤ time := by
  have quiet := run.quiet found moment (List.mem_of_getElem? sleeps)
  refine ⟨quiet, ?_⟩
  intro time reached something
  apply Nat.le_of_not_lt
  intro early
  obtain ⟨idle, unexpired⟩ := quiet time reached early
  exact something.elim (fun group => group idle) fun expired => expired unexpired

/-- One sample is less than the two that its policy asks for, so the worker that has looked at it
sleeps until the policy gives up waiting. -/
theorem nothing_found_before_timeout : ∃ history dispatcher queue,
    Run history dispatcher ∧ dispatcher.queues[0]? = some queue ∧
      queue.pending = [Sample.request ⟨4, 2, 50⟩ 0 none] ∧
      queue.workers[0]? = some (.asleep 50) ∧
      ∀ time, dispatcher.now ≤ time → time < 50 →
        (Selection.ofQueue queue.pending time).group = [] ∧
          (Selection.ofQueue queue.pending time).expired = [] := by
  let sample := Sample.request ⟨4, 2, 50⟩ 0 none
  let queue : RunQueue := ⟨.cpu, some [sample], [.asleep 50]⟩
  obtain ⟨history, dispatcher, run, queues⟩ :=
    History.exists_run [.openQueue .cpu 1, .push 0 sample, .look ⟨0, 0⟩]
      (fun reached => reached.2.queues) [queue] (by cbv)
  have found : dispatcher.queues[0]? = some queue := congrArg (fun queues => queues[0]?) queues
  have sleeps : queue.workers[0]? = some (.asleep 50) := rfl
  exact ⟨history, dispatcher, queue, run, found, rfl, sleeps,
    (run.nothing_found_before_wake found sleeps).1⟩

end Run

end InferenceStore
