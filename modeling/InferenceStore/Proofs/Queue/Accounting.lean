import InferenceStore.Proofs.Queue.Selection
import InferenceStore.Proofs.Queue.Step
import Mathlib.Data.List.Flatten
import Mathlib.Data.List.Permutation

/-
No request is lost, doubled or run twice. One event moves requests between the places where a
queue can have them and takes none away: what it had and what is pushed is what it has and what
comes to an end. Over a run, every request that was pushed waits, is held by one worker, or has
come to one end, and the requests that entered groups are those that are held or were returned.
-/

namespace InferenceStore

private theorem perm_flatMap_set {α β : Type} (f : α → List β) {items : List α} {index : Nat}
    {before : α} (found : items[index]? = some before) (after : α) :
    ((items.set index after).flatMap f ++ f before).Perm (items.flatMap f ++ f after) := by
  classical
  induction items generalizing index with
  | nil => cases found
  | cons item rest ih =>
      rw [List.perm_iff_count]
      intro counted
      cases index with
      | zero =>
          cases found
          simp only [List.set_cons_zero, List.flatMap_cons, List.count_append]
          omega
      | succ index =>
          have moved := List.perm_iff_count.mp (ih found) counted
          simp only [List.count_append] at moved
          simp only [List.set_cons_succ, List.flatMap_cons, List.count_append]
          omega

namespace RunQueue

/-- Requests that have not come to an end. -/
def contents (queue : RunQueue) : List Request := queue.pending ++ queue.held

variable {queue : RunQueue} {now : Nat}

theorem held_setWorker {index : Nat} {before : Worker}
    (found : queue.workers[index]? = some before) (after : Worker) :
    ((queue.setWorker index after).held ++ before.group).Perm (queue.held ++ after.group) :=
  perm_flatMap_set Worker.group found after

theorem held_wakeAll (queue : RunQueue) : queue.wakeAll.held = queue.held := by
  unfold held wakeAll
  rw [List.flatMap_map]
  congr 1
  funext worker
  cases worker <;> rfl

theorem group_duty (queue : RunQueue) (now : Nat) :
    (queue.duty now).group = (queue.selection now).group := by
  unfold duty
  split
  · rename_i closed
    have nothing : queue.pending = [] := pending_of_closed (by simpa [isOpen] using closed)
    simp [selection, nothing, Selection.ofQueue, Worker.group]
  · split
    · rename_i idle
      rw [List.isEmpty_iff.mp idle]
      rfl
    · rfl

theorem length_results (group : List Request) (outcome : Outcome (List Tensor)) :
    (Group.results group outcome).length = group.length := by
  unfold Group.results
  split
  · rename_i alone
    rw [alone, List.length_singleton]
  · split
    · rw [List.length_map]
    · exact Group.length_serve ..

theorem zip_results (group : List Request) (outcome : Outcome (List Tensor)) :
    (group.zip (Group.results group outcome)).map Prod.fst = group :=
  List.map_fst_zip (Nat.le_of_eq (length_results group outcome).symm)

theorem shares_requests (group : List Request) : (shares group).map Prod.fst = group :=
  zip_results ..

theorem held_after_push (queue : RunQueue) (now place : Nat) (request : Request) :
    (queue.after now (.push place request)).held = queue.held := by
  simp only [after]
  split
  · exact held_wakeAll _
  · rfl

theorem held_after_look (now : Nat) {id : WorkerId} (permitted : queue.permits (.look id) = true) :
    (queue.after now (.look id)).held.Perm (queue.held ++ (queue.selection now).group) := by
  obtain ⟨worker, found, looking⟩ := (Option.any_eq_true ..).mp permitted
  have idle : worker.group = [] := by cases worker <;> first | rfl | cases looking
  have moved := held_setWorker found (queue.duty now)
  rwa [idle, List.append_nil, group_duty] at moved

theorem held_after_return (now : Nat) {id : WorkerId}
    (permitted : queue.permits (.returnCall id) = true) :
    ((queue.after now (.returnCall id)).held ++
      queue.workers[id.worker]?.elim [] Worker.group).Perm queue.held := by
  obtain ⟨worker, found, _⟩ := (Option.any_eq_true ..).mp permitted
  have moved := held_setWorker found .looking
  rwa [found, Option.elim_some, ← List.append_nil queue.held]

theorem held_after_wake (now : Nat) {id : WorkerId}
    (permitted : queue.permits (.wake id) = true) :
    (queue.after now (.wake id)).held.Perm queue.held := by
  obtain ⟨worker, found, asleep⟩ := (Option.any_eq_true ..).mp permitted
  have idle : worker.group = [] := by cases worker <;> first | rfl | cases asleep
  have moved := held_setWorker found .looking
  rwa [idle, List.append_nil, show Worker.looking.group = [] from rfl, List.append_nil] at moved

/-- What a queue has and what is pushed is what it has behind the event and what is completed. -/
theorem conserves (queue : RunQueue) (now : Nat) {event : Event}
    (permitted : queue.permits event = true) :
    ((queue.after now event).pending ++ (queue.after now event).held ++
      (queue.endings now event).map Prod.fst).Perm
        (queue.pending ++ queue.held ++ event.pushed) := by
  classical
  rw [List.perm_iff_count]
  intro request
  cases event with
  | push place pushed =>
      rw [held_after_push]
      by_cases isOpen : queue.isOpen = true
      · simp only [pending_after_push isOpen, endings, isOpen, if_true, Event.pushed,
          List.map_nil, List.append_nil, List.count_append]
        omega
      · simp [after, endings, isOpen, Event.pushed]
  | close place =>
      have closed : (queue.after now (.close place)).pending = [] := rfl
      have held : (queue.after now (.close place)).held = queue.held := held_wakeAll _
      rw [closed, held]
      simp only [endings, Event.pushed, List.map_map, Function.comp_def, List.map_id',
        List.nil_append, List.append_nil, List.count_append]
      omega
  | look id =>
      have held := List.perm_iff_count.mp (held_after_look now permitted) request
      have parts := List.perm_iff_count.mp (Selection.parts_perm queue.pending now) request
      simp only [List.count_append, selection] at held parts
      simp only [pending_after_look, endings, selection, Event.pushed, List.map_map,
        Function.comp_def, List.map_id', List.append_nil, List.count_append]
      omega
  | returnCall id =>
      have held := List.perm_iff_count.mp (held_after_return now permitted) request
      have pending : (queue.after now (.returnCall id)).pending = queue.pending := rfl
      rw [pending]
      simp only [List.count_append] at held
      simp only [endings, Event.pushed, List.map_map, Function.comp_def, shares_requests,
        List.append_nil, List.count_append]
      omega
  | wake id =>
      have held := List.perm_iff_count.mp (held_after_wake now permitted) request
      have pending : (queue.after now (.wake id)).pending = queue.pending := rfl
      rw [pending]
      simp only [endings, Event.pushed, List.map_nil, List.append_nil, List.count_append]
      omega
  | openQueue device threads => simp [after, endings, Event.pushed]
  | advance moment => simp [after, endings, Event.pushed]
  | reset account => simp [after, endings, Event.pushed]

theorem conserves_groups (queue : RunQueue) (now : Nat) {event : Event}
    (permitted : queue.permits event = true) :
    ((queue.after now event).held ++ Ending.run (queue.endings now event)).Perm
      (queue.held ++ queue.selected now event) := by
  cases event with
  | push place pushed =>
      rw [held_after_push]
      simp only [endings, selected]
      split <;> simp [Ending.run, Ending.isReturn]
  | close place =>
      have held : (queue.after now (.close place)).held = queue.held := held_wakeAll _
      simp only [held, endings, selected, Ending.run_of_not_return .queueClosed rfl,
        List.append_nil]
      exact List.Perm.refl _
  | look id =>
      simp only [endings, selected, Ending.run_of_not_return .timedOut rfl, List.append_nil]
      exact held_after_look now permitted
  | returnCall id =>
      simp only [endings, selected, Ending.run_shares, shares_requests, List.append_nil]
      exact held_after_return now permitted
  | wake id =>
      simp only [endings, selected, Ending.run, List.filter_nil, List.map_nil, List.append_nil]
      exact held_after_wake now permitted
  | openQueue device threads => exact List.Perm.refl _
  | advance moment => exact List.Perm.refl _
  | reset account => exact List.Perm.refl _

end RunQueue

/-! ### Balances -/

/-- What a queue keeps changes by what the moments about it take out and put in. -/
structure Balance (kept : RunQueue → List Request) (lost gained : Moment → List Request) :
    Prop where
  opened : ∀ device threads, kept (.opened device threads) = []
  elsewhere : ∀ moment : Moment, moment.event.place? = none →
    lost moment = [] ∧ gained moment = []
  stepped : ∀ {dispatcher : Dispatcher} {event : Event} {place : Nat} {queue : RunQueue},
    event.place? = some place → dispatcher.queues[place]? = some queue →
    queue.permits event = true →
    (kept (queue.after dispatcher.now event) ++ lost ⟨dispatcher, event⟩).Perm
      (kept queue ++ gained ⟨dispatcher, event⟩)

namespace Balance

variable {kept : RunQueue → List Request} {lost gained : Moment → List Request}
variable {history : History} {dispatcher : Dispatcher} {place : Nat} {queue : RunQueue}

theorem single (balance : Balance kept lost gained) (run : Run history dispatcher)
    (found : dispatcher.queues[place]? = some queue) :
    (kept queue ++ (history.of place).flatMap lost).Perm ((history.of place).flatMap gained) := by
  classical
  refine run.on_queue (motive := fun history _ queue =>
    (kept queue ++ history.flatMap lost).Perm (history.flatMap gained))
    ?_ (fun _ held => held) ?_ found
  · intro _ device threads
    rw [balance.opened]
    exact List.Perm.refl _
  · intro history dispatcher queue event _ found placed permitted before
    rw [List.perm_iff_count]
    intro request
    have step := List.perm_iff_count.mp (balance.stepped placed found permitted) request
    have held := List.perm_iff_count.mp before request
    simp only [List.flatMap_append, List.flatMap_singleton, List.count_append] at step held ⊢
    omega

theorem total (balance : Balance kept lost gained) (run : Run history dispatcher) :
    (dispatcher.queues.flatMap kept ++ history.flatMap lost).Perm (history.flatMap gained) := by
  classical
  induction run with
  | start => exact List.Perm.refl _
  | @step history dispatcher run event permitted fresh ih =>
      rw [List.perm_iff_count]
      intro request
      have held := List.perm_iff_count.mp ih request
      simp only [List.flatMap_append, List.flatMap_singleton, List.count_append] at held ⊢
      cases placed : event.place? with
      | some place =>
          obtain ⟨queue, found, allowed⟩ := Dispatcher.permits_place placed permitted
          have moved := List.perm_iff_count.mp
            (perm_flatMap_set kept found (queue.after dispatcher.now event)) request
          have step := List.perm_iff_count.mp (balance.stepped placed found allowed) request
          rw [(Change.of_place placed found allowed).queues]
          simp only [List.count_append] at moved step
          omega
      | none =>
          obtain ⟨noneLost, noneGained⟩ := balance.elsewhere ⟨dispatcher, event⟩ placed
          have unchanged : (dispatcher.after event).queues.flatMap kept =
              dispatcher.queues.flatMap kept := by
            cases event with
            | openQueue device threads =>
                have empty := balance.opened device threads
                simp only [RunQueue.opened] at empty
                simp [Dispatcher.after, Dispatcher.openQueue, empty]
            | advance moment => rfl
            | reset account => rfl
            | _ => cases placed
          rw [unchanged, noneLost, noneGained]
          exact held

end Balance

theorem balance_requests :
    Balance RunQueue.contents (fun moment => moment.endings.map Prod.fst)
      (fun moment => moment.event.pushed) where
  opened device threads := by
    simp [RunQueue.contents, RunQueue.opened, RunQueue.pending, RunQueue.held, Worker.group]
  elsewhere moment placed := by
    have nothing : moment.endings = [] := Moment.endings_of_no_place placed
    refine ⟨by rw [nothing]; rfl, ?_⟩
    cases happened : moment.event <;> rw [happened] at placed <;> first | rfl | cases placed
  stepped placed found permitted := by
    rw [Moment.endings_eq placed found]
    exact RunQueue.conserves _ _ permitted

theorem balance_groups :
    Balance RunQueue.held (fun moment => Ending.run moment.endings) Moment.selected where
  opened device threads := by simp [RunQueue.opened, RunQueue.held, Worker.group]
  elsewhere moment placed := by
    have nothing : moment.endings = [] := Moment.endings_of_no_place placed
    exact ⟨by rw [nothing]; rfl, Moment.selected_of_no_place placed⟩
  stepped placed found permitted := by
    rw [Moment.endings_eq placed found, Moment.selected_eq placed found]
    exact RunQueue.conserves_groups _ _ permitted

namespace History

theorem ended_eq (history : History) :
    history.endings.map Prod.fst = history.flatMap fun moment => moment.endings.map Prod.fst :=
  List.map_flatMap

theorem run_endings_eq (history : History) :
    Ending.run history.endings = history.flatMap fun moment => Ending.run moment.endings := by
  simp only [Ending.run, History.endings, List.filter_flatMap, List.map_flatMap]

end History

namespace Run

variable {history : History} {dispatcher : Dispatcher} {place : Nat} {queue : RunQueue}

theorem distinct (run : Run history dispatcher) : (history.pushed.map Request.id).Nodup := by
  induction run with
  | start => exact List.nodup_nil
  | @step history dispatcher run event permitted fresh ih =>
      rw [History.pushed_snoc, List.map_append, List.nodup_append]
      refine ⟨ih, ?_, ?_⟩
      · cases event <;> simp [Event.pushed]
      · intro old known new pushed same
        obtain ⟨request, member, rfl⟩ := List.mem_map.mp pushed
        exact fresh request member (same ▸ known)

theorem whereabouts (run : Run history dispatcher)
    (found : dispatcher.queues[place]? = some queue) :
    (queue.pending ++ queue.held ++ (history.of place).endings.map Prod.fst).Perm
      (history.of place).pushed := by
  rw [History.ended_eq]
  exact balance_requests.single run found

/-- Over all queues together, no request that was pushed is lost or doubled. -/
theorem conserved (run : Run history dispatcher) :
    (dispatcher.queues.flatMap RunQueue.contents ++ history.endings.map Prod.fst).Perm
      history.pushed := by
  rw [History.ended_eq]
  exact balance_requests.total run

/-- The requests that have entered groups of a queue are held by its workers or were run, each as
often as it has entered. -/
theorem entered (run : Run history dispatcher)
    (found : dispatcher.queues[place]? = some queue) :
    (queue.held ++ Ending.run (history.of place).endings).Perm (history.of place).selected := by
  rw [History.run_endings_eq]
  exact balance_groups.single run found

theorem endings_distinct (run : Run history dispatcher) :
    (history.endings.map fun ending => ending.1.id).Nodup := by
  have whole := (run.conserved.map Request.id).nodup_iff.mpr run.distinct
  rw [List.map_append, List.map_map] at whole
  exact (List.nodup_append.mp whole).2.1

end Run

end InferenceStore
