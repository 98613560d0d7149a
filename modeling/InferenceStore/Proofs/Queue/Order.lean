import InferenceStore.Proofs.Queue.Custody
import Mathlib.Data.List.Nodup

/-
Arrival order. What waits in a queue waits in the order in which it was pushed, and a look keeps
the order inside a class. So a request can be selected only behind the earlier requests of its
class, or together with them and in order; requests of other classes may well be overtaken.
-/

namespace InferenceStore

private theorem pair_within {α : Type} {first second : α} {part whole : List α}
    (within : part.Sublist whole) (distinct : whole.Nodup)
    (ordered : [first, second].Sublist whole) (hasFirst : first ∈ part)
    (hasSecond : second ∈ part) : [first, second].Sublist part := by
  induction within with
  | slnil => cases hasFirst
  | @cons part whole skipped within ih =>
      obtain ⟨absent, others⟩ := List.nodup_cons.mp distinct
      cases ordered with
      | cons _ inRest => exact ih others inRest hasFirst hasSecond
      | cons_cons _ _ => exact absurd (within.subset hasFirst) absent
  | @cons_cons part whole kept within ih =>
      obtain ⟨absent, others⟩ := List.nodup_cons.mp distinct
      have beyond {item : α} (member : item ∈ kept :: part) (inRest : item ∈ whole) :
          item ∈ part :=
        (List.mem_cons.mp member).resolve_left fun same => absent (same ▸ inRest)
      cases ordered with
      | cons _ inRest =>
          have kept := ih others inRest (beyond hasFirst (inRest.subset (by simp)))
            (beyond hasSecond (inRest.subset (by simp)))
          exact kept.cons _
      | cons_cons _ inRest =>
          have member := beyond hasSecond (inRest.subset (by simp))
          exact (List.singleton_sublist.mpr member).cons_cons _

private theorem pair_front {α : Type} {first second : α} {front back : List α}
    (distinct : (front ++ back).Nodup) (ordered : [first, second].Sublist (front ++ back))
    (member : second ∈ front) : first ∈ front := by
  obtain ⟨left, right, split, inFront, inBack⟩ := List.sublist_append_iff.mp ordered
  cases left with
  | nil =>
      rw [List.nil_append] at split
      have behind : second ∈ back := inBack.subset (by simp [← split])
      exact absurd rfl ((List.nodup_append.mp distinct).2.2 second member second behind)
  | cons item rest =>
      obtain ⟨rfl, _⟩ := List.cons.inj split
      exact inFront.subset (List.mem_cons_self ..)

namespace RunQueue

variable {queue : RunQueue} {now : Nat} {event : Event}

theorem pending_after_sublist (queue : RunQueue) (now : Nat) (event : Event) :
    (queue.after now event).pending.Sublist (queue.pending ++ event.pushed) := by
  cases event with
  | push place request =>
      by_cases isOpen : queue.isOpen = true
      · rw [pending_after_push isOpen]
        exact List.Sublist.refl _
      · rw [after, if_neg isOpen]
        exact List.sublist_append_left ..
  | look id =>
      rw [pending_after_look]
      have stays : (queue.selection now).waiting.Sublist queue.pending :=
        (Selection.waiting_sublist queue.pending now).trans List.filter_sublist
      exact stays.trans (List.sublist_append_left ..)
  | close place => exact List.nil_sublist _
  | _ => exact List.sublist_append_left ..

theorem closed_of_refusal {request : Request}
    (refused : (request, .queueClosed) ∈ queue.endings now event) :
    (queue.after now event).waiting = none := by
  cases event with
  | push place pushed =>
      by_cases isOpen : queue.isOpen = true
      · simp [endings, isOpen] at refused
      · rw [after, if_neg isOpen]
        simpa [RunQueue.isOpen] using isOpen
  | close place => rfl
  | look id => simp [endings] at refused
  | returnCall id => simp [endings] at refused
  | _ => cases refused

end RunQueue

namespace Run

variable {history : History} {dispatcher : Dispatcher} {place : Nat} {queue : RunQueue}

theorem pending_sublist (run : Run history dispatcher)
    (found : dispatcher.queues[place]? = some queue) :
    queue.pending.Sublist (history.of place).pushed := by
  refine run.on_queue (motive := fun history _ queue => queue.pending.Sublist history.pushed)
    ?_ (fun _ kept => kept) ?_ found
  · intro _ device threads
    exact List.nil_sublist _
  · intro history dispatcher queue event _ _ _ _ before
    rw [History.pushed_snoc]
    exact (queue.pending_after_sublist dispatcher.now event).trans (before.append_right _)

theorem pushed_of_pending (run : Run history dispatcher)
    (found : dispatcher.queues[place]? = some queue) {request : Request}
    (waits : request ∈ queue.pending) : request ∈ history.pushed := by
  have part : (history.of place).pushed.Sublist history.pushed := List.filter_sublist.flatMap _
  exact part.subset ((run.pending_sublist found).subset waits)

theorem closed_of_refused (run : Run history dispatcher)
    (found : dispatcher.queues[place]? = some queue) {request : Request}
    (refused : (request, .queueClosed) ∈ (history.of place).endings) : queue.waiting = none := by
  refine run.on_queue (motive := fun history _ queue =>
    (request, Ending.queueClosed) ∈ history.endings → queue.waiting = none)
    ?_ (fun _ kept => kept) ?_ found refused
  · intro _ device threads member
    cases member
  · intro history dispatcher queue event _ found placed _ before member
    rw [History.endings_snoc, Moment.endings_eq placed found] at member
    rcases List.mem_append.mp member with earlier | now
    · exact RunQueue.stays_closed (before earlier) _ _
    · exact RunQueue.closed_of_refusal now

theorem pushed_distinct (run : Run history dispatcher) (place : Nat) :
    (history.of place).pushed.Nodup := by
  have all : history.pushed.Nodup := List.Nodup.of_map _ run.distinct
  have part : (history.of place).pushed.Sublist history.pushed :=
    List.filter_sublist.flatMap _
  exact part.nodup all

/-- A request that was pushed to an open queue and has not timed out waits or has been selected. -/
theorem waits_or_selected (run : Run history dispatcher)
    (found : dispatcher.queues[place]? = some queue) (isOpen : queue.waiting ≠ none)
    {request : Request} (pushed : request ∈ (history.of place).pushed)
    (lasts : (request, .timedOut) ∉ history.endings) :
    request ∈ queue.pending ∨ request ∈ (history.of place).selected := by
  have entered := (run.entered found).mem_iff (a := request)
  rcases List.mem_append.mp ((run.whereabouts found).mem_iff.mpr pushed) with inside | ended
  · rcases List.mem_append.mp inside with waits | held
    · exact Or.inl waits
    · exact Or.inr (entered.mp (List.mem_append_left _ held))
  · obtain ⟨⟨_, ending⟩, member, rfl⟩ := List.mem_map.mp ended
    cases ending with
    | timedOut =>
        have part : (history.of place).endings.Sublist history.endings :=
          List.filter_sublist.flatMap _
        exact absurd (part.subset member) lasts
    | queueClosed => exact absurd (run.closed_of_refused found member) isOpen
    | returned share =>
        have was : _ ∈ Ending.run (history.of place).endings :=
          List.mem_map_of_mem (List.mem_filter.mpr ⟨member, rfl⟩)
        exact Or.inr (entered.mp (List.mem_append_right _ was))

/-- A look that selects a request has been preceded by one that selected the earlier requests of
its class, or selects them too and in order. -/
theorem look_keeps_order (run : Run history dispatcher)
    (found : dispatcher.queues[place]? = some queue) (identified : Identified history.pushed)
    {first second : Request} (arrived : [first, second].Sublist (history.of place).pushed)
    (lasted : (first, .timedOut) ∉ history.endings)
    (lasts : first ∈ queue.pending → first.isExpired dispatcher.now = false)
    (related : first.SameClass second)
    (selected : second ∈ (queue.selection dispatcher.now).group) :
    first ∈ (history.of place).selected ∨
      [first, second].Sublist (queue.selection dispatcher.now).group := by
  have secondWaits : second ∈ queue.pending :=
    (Selection.mem_live.mp ((Selection.group_sublist _ _).subset selected)).1
  have isOpen : queue.waiting ≠ none := by
    intro closed
    rw [RunQueue.pending, closed] at secondWaits
    cases secondWaits
  have waiting := run.pending_sublist found
  have distinct := run.pushed_distinct place
  rcases run.waits_or_selected found isOpen (arrived.subset (by simp)) lasted with waits | before
  · have known : Identified queue.pending := by
      have part : (history.of place).pushed.Sublist history.pushed := List.filter_sublist.flatMap _
      exact identified.subset fun request member => part.subset (waiting.subset member)
    exact Or.inr (Selection.group_keeps_order (waiting.nodup distinct) known
      (pair_within waiting distinct arrived waits secondWaits) (lasts waits) related selected)
  · exact Or.inl before

/-- Arrival order is kept inside a class. A request is selected in no look before an earlier one
of its class that does not time out, and when both are selected in one look they stand in the
group as they were pushed. The hypothesis on instances is what loading sees to: every loaded model
or script has a number of its own. -/
theorem keeps_arrival_order (run : Run history dispatcher) (identified : Identified history.pushed)
    {first second : Request} (arrived : [first, second].Sublist (history.of place).pushed)
    (lasts : (first, .timedOut) ∉ history.endings) (related : first.SameClass second)
    {earlier later : History} {moment : Moment} (split : history = earlier ++ moment :: later)
    {worker : Nat} (looks : moment.event = .look ⟨place, worker⟩)
    (found : second ∈ moment.selected) :
    first ∈ (History.of earlier place).selected ∨ [first, second].Sublist moment.selected := by
  subst split
  obtain ⟨reached, permitted⟩ := run.before
  have placed : moment.event.place? = some place := by rw [looks]; rfl
  obtain ⟨queue, foundQueue, _⟩ := Dispatcher.permits_place placed permitted
  have selects : moment.selected = (queue.selection moment.state.now).group := by
    have same : moment.selected = queue.selected moment.state.now moment.event :=
      Moment.selected_eq placed foundQueue
    rw [same, looks]
    rfl
  rw [selects] at found ⊢
  have waiting := reached.pending_sublist foundQueue
  have secondPushed : second ∈ (History.of earlier place).pushed :=
    waiting.subset (Selection.mem_live.mp ((Selection.group_sublist _ _).subset found)).1
  have whole : (History.of (earlier ++ moment :: later) place).pushed =
      (History.of earlier place).pushed ++ (History.of (moment :: later) place).pushed := by
    rw [History.of_append, History.pushed_append]
  have distinct := run.pushed_distinct place
  rw [whole] at arrived distinct
  have inOrder : [first, second].Sublist (History.of earlier place).pushed :=
    pair_within (List.sublist_append_left ..) distinct arrived
      (pair_front distinct arrived secondPushed) secondPushed
  have known : Identified (History.pushed earlier) := by
    apply identified.subset
    rw [History.pushed_append]
    exact List.subset_append_left ..
  have ends : History.endings earlier ++ moment.endings ⊆
      History.endings (earlier ++ moment :: later) := by
    simp [History.endings]
  refine reached.look_keeps_order foundQueue known inOrder ?_ ?_ related found
  · exact fun ended => lasts (ends (List.mem_append_left _ ended))
  · intro waits
    cases expired : first.isExpired moment.state.now with
    | false => rfl
    | true =>
        obtain ⟨deadline, timed, passed⟩ := Moment.isExpired_iff.mp expired
        have finds : moment.FindsExpired first :=
          ⟨_, queue, deadline, looks, foundQueue, waits, timed, passed⟩
        exact absurd (ends (List.mem_append_right _ (Moment.timedOut_iff.mpr finds))) lasts

/-- Of three requests of one model two fill a batch, and the third is selected behind them. -/
theorem third_follows_second : ∃ history dispatcher, ∃ (earlier later : History) (moment : Moment),
    Run history dispatcher ∧ history = earlier ++ moment :: later ∧
      moment.selected = [Sample.request ⟨2, 0, 0⟩ 2 none] ∧
      (Sample.request ⟨2, 0, 0⟩ 1 none ∈ (History.of earlier 0).selected ∨
        [Sample.request ⟨2, 0, 0⟩ 1 none, Sample.request ⟨2, 0, 0⟩ 2 none].Sublist
          moment.selected) := by
  let sample := fun id => Sample.request ⟨2, 0, 0⟩ id none
  let returned := Ending.returned (.ok [Sample.row])
  obtain ⟨history, dispatcher, run, seen⟩ :=
    History.exists_run
      [ .openQueue .cpu 1,
        .push 0 (sample 0),
        .push 0 (sample 1),
        .push 0 (sample 2),
        .look ⟨0, 0⟩,
        .returnCall ⟨0, 0⟩,
        .look ⟨0, 0⟩ ]
      (fun reached => (reached.1.pushed, (reached.1.of 0).pushed, reached.1.endings,
        reached.1[6]?.map fun moment => (moment.event, moment.selected)))
      ([sample 0, sample 1, sample 2], [sample 0, sample 1, sample 2],
        [(sample 0, returned), (sample 1, returned)],
        some (.look ⟨0, 0⟩, [sample 2])) (by cbv)
  simp only [Prod.mk.injEq, Option.map_eq_some_iff] at seen
  obtain ⟨pushed, pushedHere, endings, moment, last, looks, selected⟩ := seen
  obtain ⟨within, same⟩ := List.getElem?_eq_some_iff.mp last
  have split : history = history.take 6 ++ moment :: history.drop 7 := by
    rw [← same, ← List.drop_eq_getElem_cons within, List.take_append_drop]
  have shared : ∀ request ∈ history.pushed, request.target = .model (Sample.echo ⟨2, 0, 0⟩) := by
    rw [pushed]
    simp [sample, Sample.request]
  have identified : Identified history.pushed :=
    fun a inA b inB _ => by rw [shared a inA, shared b inB]
  have arrived : [sample 1, sample 2].Sublist (history.of 0).pushed := by
    rw [pushedHere]
    exact (List.Sublist.refl _).cons _
  have lasts : (sample 1, .timedOut) ∉ history.endings := by
    rw [endings]
    simp [returned]
  have joins : (sample 1).SameClass (sample 2) := Or.inl (by decide)
  exact ⟨history, dispatcher, history.take 6, history.drop 7, moment, run, split, selected,
    run.keeps_arrival_order identified arrived lasts joins split looks (by simp [selected])⟩

end Run

end InferenceStore
