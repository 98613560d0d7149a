import InferenceStore.Proofs.Queue.Orderly

/-
The dispatcher's own order of events. Its rounds take only steps that a run permits: who looks was
about to look, whose call returns runs a group, who wakes slept, and the clock does not go back. So
what holds of every run holds of what the dispatcher does between its clients' commands.
-/

namespace InferenceStore

namespace Dispatcher

/-- Alike up to whose turn it is and what is noted about calls. -/
structure Alike (a b : Dispatcher) : Prop where
  now : a.now = b.now
  queues : a.queues = b.queues
  results : a.results = b.results

namespace Alike

variable {a b c : Dispatcher}

theorem refl (a : Dispatcher) : a.Alike a := ⟨rfl, rfl, rfl⟩

theorem trans (first : a.Alike b) (second : b.Alike c) : a.Alike c :=
  ⟨first.now.trans second.now, first.queues.trans second.queues,
    first.results.trans second.results⟩

theorem permits (alike : a.Alike b) (event : Event) : a.permits event = b.permits event := by
  have asked : a.queueOf? event = b.queueOf? event := by
    unfold queueOf?
    rw [alike.queues]
  cases event with
  | advance moment => simp only [Dispatcher.permits, alike.now]
  | openQueue device threads => rfl
  | reset account => rfl
  | _ => simp only [Dispatcher.permits, asked]

theorem after (alike : a.Alike b) {event : Event} (permitted : a.permits event = true) :
    (a.after event).Alike (b.after event) := by
  cases placed : event.place? with
  | some place =>
      obtain ⟨queue, found, allowed⟩ := permits_place placed permitted
      have first := Change.of_place placed found allowed
      have second := Change.of_place placed (alike.queues ▸ found) allowed
      constructor
      · rw [first.now, second.now, alike.now]
      · rw [first.queues, second.queues, alike.queues, alike.now]
      · rw [first.results, second.results, alike.results, alike.now]
  | none =>
      cases event with
      | openQueue device threads =>
          refine ⟨alike.now, ?_, alike.results⟩
          simp only [Dispatcher.after, openQueue, alike.queues]
      | advance moment => exact ⟨rfl, alike.queues, alike.results⟩
      | reset account => exact ⟨alike.now, alike.queues, alike.results⟩
      | _ => cases placed

end Alike

variable {dispatcher : Dispatcher} {id : WorkerId}

private theorem nextRequest_wakeQueue (dispatcher : Dispatcher) (place : Nat) :
    (dispatcher.wakeQueue place).nextRequest = dispatcher.nextRequest := by
  unfold wakeQueue
  split <;> rfl

private theorem nextRequest_completeAll (dispatcher : Dispatcher) (requests : List Request)
    (ending : Ending) :
    (dispatcher.completeAll requests ending.result).nextRequest = dispatcher.nextRequest := by
  rw [completeAll_eq]

theorem nextRequest_after (dispatcher : Dispatcher) (event : Event) :
    (dispatcher.after event).nextRequest = dispatcher.nextRequest + event.pushed.length := by
  cases event with
  | openQueue device threads => rfl
  | advance moment => rfl
  | reset account => rfl
  | push place request =>
      simp only [after, push]
      split
      · rfl
      · split
        · rfl
        · exact nextRequest_wakeQueue ..
  | close place =>
      simp only [after, close]
      split
      · rfl
      · exact (nextRequest_wakeQueue ..).trans (nextRequest_completeAll _ _ .queueClosed)
  | look id =>
      simp only [after, look]
      split
      · rfl
      · split
        · rfl
        · split <;> exact nextRequest_completeAll _ _ .timedOut
  | returnCall id =>
      simp only [after, returnCall]
      split
      · rfl
      · split
        · simp only [deliver_eq]
          rfl
        · rfl
  | wake id =>
      simp only [after, wake]
      split <;> rfl

/-- Its lists are in order, and a run leads to a state like it. No number was given out that is
still to come. -/
structure Backed (dispatcher : Dispatcher) : Prop where
  orderly : dispatcher.Orderly
  run : ∃ history state, Run history state ∧ state.Alike dispatcher ∧
    ∀ request ∈ history.pushed, request.id < dispatcher.nextRequest

namespace Backed

theorem of_alike {other : Dispatcher} (backed : dispatcher.Backed) (orderly : other.Orderly)
    (alike : dispatcher.Alike other) (numbers : other.nextRequest = dispatcher.nextRequest) :
    other.Backed := by
  obtain ⟨history, state, run, same, below⟩ := backed.run
  exact ⟨orderly, history, state, run, same.trans alike, by rwa [numbers]⟩

theorem step (backed : dispatcher.Backed) (event : Event)
    (permitted : dispatcher.permits event = true)
    (numbered : ∀ request ∈ event.pushed, request.id = dispatcher.nextRequest)
    (orderly : (dispatcher.after event).Orderly) : (dispatcher.after event).Backed := by
  obtain ⟨history, state, run, alike, below⟩ := backed.run
  have allowed : state.permits event = true := (alike.permits event).trans permitted
  refine ⟨orderly, _, _, run.step event allowed ?_, alike.after allowed, ?_⟩
  · intro request member known
    obtain ⟨earlier, pushed, same⟩ := List.mem_map.mp known
    have early := below earlier pushed
    rw [same, numbered request member] at early
    exact Nat.lt_irrefl _ early
  · intro request member
    rw [nextRequest_after]
    rw [History.pushed_snoc] at member
    rcases List.mem_append.mp member with before | last
    · exact Nat.lt_of_lt_of_le (below request before) (Nat.le_add_right ..)
    · rw [numbered request last]
      exact Nat.lt_add_of_pos_right (List.length_pos_of_mem last)

private theorem quiet {event : Event} (nothing : event.pushed = []) :
    ∀ request ∈ event.pushed, request.id = dispatcher.nextRequest := by
  rw [nothing]
  exact fun _ member => (List.not_mem_nil member).elim

/-! ### Turns and calls -/

private theorem foldl {act : Dispatcher → WorkerId → Dispatcher}
    (ready : Dispatcher → WorkerId → Prop)
    (step : ∀ state id, Backed state → ready state id → (act state id).Backed)
    (keeps : ∀ state id other, ready state id → ready state other → other ≠ id →
      ready (act state id) other)
    {ids : List WorkerId} (backed : dispatcher.Backed) (distinct : ids.Nodup)
    (allReady : ∀ id ∈ ids, ready dispatcher id) : (ids.foldl act dispatcher).Backed := by
  induction ids generalizing dispatcher with
  | nil => exact backed
  | cons id rest ih =>
      obtain ⟨absent, others⟩ := List.nodup_cons.mp distinct
      have first := allReady id (List.mem_cons_self ..)
      refine ih (step dispatcher id backed first) others ?_
      intro other member
      exact keeps dispatcher id other first (allReady other (List.mem_cons_of_mem _ member))
        (ne_of_mem_of_not_mem member absent)

theorem takeTurns (backed : dispatcher.Backed) : dispatcher.takeTurns.Backed := by
  have orderly := backed.orderly
  have cleared : Backed { dispatcher with turns := [] } := by
    refine backed.of_alike ?_ ⟨rfl, rfl, rfl⟩ rfl
    exact ⟨fun _ member => (List.not_mem_nil member).elim, List.nodup_nil, orderly.calls,
      orderly.callsDistinct⟩
  refine foldl (fun state id => state.workerAt? id = some .looking ∧ state.turns = []) ?_ ?_
    cleared orderly.turnsDistinct fun id member => ⟨orderly.turns id member, rfl⟩
  · intro state id stateBacked ready
    have free : id ∉ state.turns := by
      rw [ready.2]
      exact List.not_mem_nil
    exact stateBacked.step (.look id) (permits_of_looking ready.1) (quiet rfl)
      (orderly_look stateBacked.orderly ready.1 free)
  · intro state id other first second apart
    have permitted := permits_of_looking first.1
    have same := keeps_others (show actor? (.look id) = some id from rfl) permitted apart
    obtain ⟨queue, found, _⟩ := permits_place rfl permitted
    exact ⟨same.trans second.1, (lists_look found).1.trans first.2⟩

theorem nextReturn (backed : dispatcher.Backed) {returned : Dispatcher}
    (returns : dispatcher.nextReturn? = some returned) : returned.Backed := by
  have orderly := backed.orderly
  unfold nextReturn? at returns
  cases called : dispatcher.calls with
  | nil =>
      rw [called] at returns
      cases returns
  | cons id rest =>
      rw [called] at returns
      cases returns
      obtain ⟨absent, distinct⟩ := List.nodup_cons.mp (called ▸ orderly.callsDistinct)
      have taken : Backed { dispatcher with calls := rest } := by
        refine backed.of_alike ?_ ⟨rfl, rfl, rfl⟩ rfl
        refine ⟨orderly.turns, orderly.turnsDistinct, ?_, distinct⟩
        exact fun other member => orderly.calls other (called ▸ List.mem_cons_of_mem _ member)
      have running := orderly.calls id (called ▸ List.mem_cons_self ..)
      exact taken.step (.returnCall id) (permits_returnCall.trans running) (quiet rfl)
        (orderly_returnCall taken.orderly running absent)

/-! ### The clock -/

private def duePart (now : Nat) (placed : RunQueue × Nat) : List (Nat × WorkerId) :=
  placed.1.workers.zipIdx.filterMap fun worker =>
    match worker.1.wakeAt? with
    | some moment => if moment ≤ now then some (moment, ⟨placed.2, worker.2⟩) else none
    | none => none

private theorem dueWorkers_perm (dispatcher : Dispatcher) :
    dispatcher.dueWorkers.Perm
      ((dispatcher.queues.zipIdx.flatMap (duePart dispatcher.now)).map Prod.snd) :=
  (List.mergeSort_perm _ _).map Prod.snd

private theorem mem_duePart {now : Nat} {placed : RunQueue × Nat}
    (member : id ∈ (duePart now placed).map Prod.snd) :
    id.queue = placed.2 ∧ (placed.1.workers[id.worker]?).any Worker.isAsleep = true := by
  obtain ⟨⟨moment, _⟩, inPart, rfl⟩ := List.mem_map.mp member
  obtain ⟨⟨worker, index⟩, there, chosen⟩ := List.mem_filterMap.mp inPart
  have workerAt := List.mem_zipIdx_iff_getElem?.mp there
  simp only at workerAt chosen
  cases worker with
  | asleep wakeAt =>
      simp only [Worker.wakeAt?] at chosen
      split at chosen
      · cases chosen
        rw [workerAt]
        exact ⟨rfl, rfl⟩
      · cases chosen
  | _ => simp [Worker.wakeAt?] at chosen

private theorem duePart_nodup (now : Nat) (placed : RunQueue × Nat) :
    ((duePart now placed).map Prod.snd).Nodup := by
  refine List.pairwise_map.mpr (List.pairwise_filterMap.mpr ?_)
  refine (places_differ placed.1.workers).imp ?_
  rintro ⟨worker, index⟩ ⟨worker', index'⟩ apart first chosen second chosenToo same
  have own {worker : Worker} {index : Nat} {due : Nat × WorkerId}
      (chosen : (match worker.wakeAt? with
        | some moment => if moment ≤ now then some (moment, ⟨placed.2, index⟩) else none
        | none => none) = some due) : due.2.worker = index := by
    split at chosen
    · split at chosen
      · cases chosen
        rfl
      · cases chosen
    · cases chosen
  exact apart ((own chosen).symm.trans ((congrArg WorkerId.worker same).trans (own chosenToo)))

theorem dueWorkers_nodup (dispatcher : Dispatcher) : dispatcher.dueWorkers.Nodup := by
  rw [(dueWorkers_perm dispatcher).nodup_iff, List.map_flatMap, List.nodup_flatMap]
  refine ⟨fun placed _ => duePart_nodup dispatcher.now placed, ?_⟩
  refine (places_differ dispatcher.queues).imp ?_
  intro first second apart id inFirst inSecond
  exact apart ((mem_duePart inFirst).1.symm.trans (mem_duePart inSecond).1)

theorem asleep_of_due (due : id ∈ dispatcher.dueWorkers) :
    (dispatcher.workerAt? id).any Worker.isAsleep = true := by
  have member := (dueWorkers_perm dispatcher).mem_iff.mp due
  rw [List.map_flatMap] at member
  obtain ⟨⟨queue, place⟩, placed, inPart⟩ := List.mem_flatMap.mp member
  obtain ⟨here, sleeps⟩ := mem_duePart inPart
  have found := List.mem_zipIdx_iff_getElem?.mp placed
  simp only at found here sleeps
  rw [workerAt?, here, found]
  exact sleeps

theorem advanceTo (backed : dispatcher.Backed) {moment : Nat}
    (onward : dispatcher.now ≤ moment) : (dispatcher.advanceTo moment).Backed := by
  have orderly := backed.orderly
  have later : (dispatcher.after (.advance moment)).Backed :=
    backed.step (.advance moment) (decide_eq_true onward) (quiet rfl)
      ⟨orderly.turns, orderly.turnsDistinct, orderly.calls, orderly.callsDistinct⟩
  refine foldl (fun state id => (state.workerAt? id).any Worker.isAsleep = true) ?_ ?_ later
    (dueWorkers_nodup _) fun id due => asleep_of_due due
  · intro state id stateBacked sleeps
    exact stateBacked.step (.wake id) (permits_wake.trans sleeps) (quiet rfl)
      (orderly_wake stateBacked.orderly sleeps)
  · intro state id other first second apart
    have same := keeps_others (show actor? (.wake id) = some id from rfl)
      (permits_wake.trans first) apart
    exact (congrArg (Option.any Worker.isAsleep) same).trans second

theorem tick (backed : dispatcher.Backed) {limit : Nat} (inTime : dispatcher.now ≤ limit) :
    (dispatcher.tick limit).Backed :=
  backed.advanceTo (Nat.le_min.mpr ⟨inTime, Nat.le_max_left ..⟩)

end Backed

/-! ### Rounds -/

/-- What clients ask for, and the steps that a round is made of. -/
inductive Driven : Dispatcher → Prop
  | start : Driven .initial
  | openQueue {dispatcher : Dispatcher} (driven : Driven dispatcher) (device : Device)
      (threads : Nat) : Driven (dispatcher.openQueue device threads)
  | submit {dispatcher : Dispatcher} (driven : Driven dispatcher) {place : Nat}
      (known : place < dispatcher.queues.length) (target : Target) (inputs : List Tensor)
      (outputCount : Nat) (deadline : Option Nat) :
      Driven (dispatcher.push place (dispatcher.newRequest target inputs outputCount deadline))
  | close {dispatcher : Dispatcher} (driven : Driven dispatcher) {place : Nat}
      (known : place < dispatcher.queues.length) : Driven (dispatcher.close place)
  | reset {dispatcher : Dispatcher} (driven : Driven dispatcher) (account : InstanceId) :
      Driven { dispatcher with ledger := dispatcher.ledger.reset account }
  | takeTurns {dispatcher : Dispatcher} (driven : Driven dispatcher) : Driven dispatcher.takeTurns
  | nextReturn {dispatcher returned : Dispatcher} (driven : Driven dispatcher)
      (returns : dispatcher.nextReturn? = some returned) : Driven returned
  | tick {dispatcher : Dispatcher} (driven : Driven dispatcher) {limit : Nat}
      (inTime : dispatcher.now ≤ limit) : Driven (dispatcher.tick limit)

theorem now_takeTurns (dispatcher : Dispatcher) : dispatcher.takeTurns.now = dispatcher.now := by
  have kept (ids : List WorkerId) (state : Dispatcher) :
      (ids.foldl look state).now = state.now := by
    induction ids generalizing state with
    | nil => rfl
    | cons id rest ih =>
        rw [List.foldl_cons, ih]
        cases found : state.queues[id.queue]? with
        | none => simp only [look, found]
        | some queue => exact (Change.look id found).now
  exact kept dispatcher.turns _

theorem now_nextReturn {returned : Dispatcher} (returns : dispatcher.nextReturn? = some returned) :
    returned.now = dispatcher.now := by
  unfold nextReturn? at returns
  split at returns
  · cases returns
  · cases returns
    unfold returnCall
    split
    · rfl
    · split
      · simp only [deliver_eq]
        rfl
      · rfl

namespace Driven

theorem runRounds (isOver : Dispatcher → Bool) {limit : Nat} (rounds : Nat)
    (driven : Driven dispatcher) (inTime : dispatcher.now ≤ limit) :
    Driven (Dispatcher.runRounds isOver limit rounds dispatcher) := by
  induction rounds generalizing dispatcher with
  | zero => exact driven
  | succ rounds ih =>
      have settled := driven.takeTurns
      have settledInTime := (now_takeTurns dispatcher).symm ▸ inTime
      simp only [Dispatcher.runRounds]
      split
      · exact settled
      · split
        · rename_i returned returns
          exact ih (settled.nextReturn returns) ((now_nextReturn returns).symm ▸ settledInTime)
        · have ticked := settled.tick settledInTime
          split
          · exact ticked
          · rename_i running
            exact ih ticked (Nat.le_of_not_le running)

theorem runUntil (driven : Driven dispatcher) (isOver : Dispatcher → Bool) (limit : Nat) :
    Driven (dispatcher.runUntil isOver limit) := by
  unfold Dispatcher.runUntil
  split
  · exact driven
  · rename_i running
    exact driven.runRounds isOver _ (Nat.le_of_not_le (not_or.mp running).2)

theorem backed (driven : Driven dispatcher) : dispatcher.Backed := by
  induction driven with
  | start =>
      exact ⟨orderly_initial, [], _, .start, .refl _,
        fun _ member => (List.not_mem_nil member).elim⟩
  | openQueue driven device threads ih =>
      exact ih.step (.openQueue device threads) rfl (Backed.quiet rfl)
        (orderly_openQueue ih.orderly device threads)
  | @submit dispatcher driven place known target inputs outputCount deadline ih =>
      let request := dispatcher.newRequest target inputs outputCount deadline
      have found := List.getElem?_eq_getElem known
      refine ih.step (.push place request) (permits_of_queue found rfl rfl) ?_
        (orderly_push ih.orderly place request)
      intro request member
      rw [List.mem_singleton.mp member]
      rfl
  | @close dispatcher driven place known ih =>
      have found := List.getElem?_eq_getElem known
      exact ih.step (.close place) (permits_of_queue found rfl rfl) (Backed.quiet rfl)
        (orderly_close ih.orderly place)
  | reset driven account ih =>
      have orderly := ih.orderly
      exact ih.of_alike
        ⟨orderly.turns, orderly.turnsDistinct, orderly.calls, orderly.callsDistinct⟩
        ⟨rfl, rfl, rfl⟩ rfl
  | takeTurns driven ih => exact ih.takeTurns
  | nextReturn driven returns ih => exact ih.nextReturn returns
  | tick driven inTime ih => exact ih.tick inTime

/-- A run leads to the clock, the queues and the results of whatever the dispatcher reaches. -/
theorem exists_run (driven : Driven dispatcher) :
    ∃ history state, Run history state ∧ state.Alike dispatcher := by
  obtain ⟨history, state, run, alike, _⟩ := driven.backed.run
  exact ⟨history, state, run, alike⟩

end Driven

end Dispatcher

end InferenceStore
