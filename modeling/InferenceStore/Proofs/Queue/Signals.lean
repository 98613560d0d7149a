import InferenceStore.Proofs.Queue.Waking
import Mathlib.Data.List.Forall2

/-
Queues and their workers in smaller steps. A push puts its request in the queue first and rings for
the workers later, as a close does, and a worker takes four steps where the events of a run have one
look: it finds the queue open, takes a ticket with the number of rings so far, looks, and lies down.
A ring wakes every worker with a ticket from before it, asleep already or not. Anything may happen
between two such steps. A request is told its end in the step that decides it.

The ticket is older than the look. So a request that a look has missed comes with a ring that is
newer than the ticket, and whatever these steps lead to, the events of a run lead to as well.
-/

namespace InferenceStore.Fine

inductive Stage where
  | outside
  | inside
  | registered (ticket : Nat)
  /-- Has found nothing, but does not sleep yet. -/
  | idle (ticket moment : Nat)
  | asleep (ticket moment : Nat)
  | running (group : List Request)
  | stopped

def Stage.rest? : Stage → Option (Nat × Nat)
  | .idle ticket moment | .asleep ticket moment => some (ticket, moment)
  | _ => none

structure Queue where
  device : Device
  waiting : Option (List Request)
  stages : List Stage
  rings : Nat
  owed : Nat

inductive Act where
  | enqueue (request : Request)
  | shut
  | ring
  | check (worker : Nat)
  | register (worker : Nat)
  | look (worker : Nat)
  | sleep (worker : Nat)
  | rouse (worker : Nat)
  | finish (worker : Nat)

def Act.pushed : Act → List Request
  | .enqueue request => [request]
  | _ => []

namespace Queue

def opened (device : Device) (threads : Nat) : Queue :=
  ⟨device, some [], List.replicate (max threads 1) .outside, 0, 0⟩

def setStage (queue : Queue) (worker : Nat) (stage : Stage) : Queue :=
  { queue with stages := queue.stages.set worker stage }

def selection (queue : Queue) (now : Nat) : Selection :=
  Selection.ofQueue (queue.waiting.getD []) now

/-- The stage behind a look. A closed queue has nothing to run and no moment of its own. -/
def found (queue : Queue) (now ticket : Nat) : Stage :=
  if (queue.selection now).group.isEmpty then
    .idle ticket ((queue.selection now).wakeAt.getD (now + Dispatcher.idleWait))
  else .running (queue.selection now).group

def after? (queue : Queue) (now : Nat) : Act → Option Queue
  | .enqueue request =>
      match queue.waiting with
      | none => some queue
      | some waiting =>
          some { queue with waiting := some (waiting ++ [request]), owed := queue.owed + 1 }
  | .shut => some { queue with waiting := none, owed := queue.owed + 1 }
  | .ring =>
      if queue.owed = 0 then none
      else some { queue with rings := queue.rings + 1, owed := queue.owed - 1 }
  | .check worker =>
      match queue.stages[worker]? with
      | some .outside =>
          some (queue.setStage worker (if queue.waiting.isNone then .stopped else .inside))
      | _ => none
  | .register worker =>
      match queue.stages[worker]? with
      | some .inside => some (queue.setStage worker (.registered queue.rings))
      | _ => none
  | .look worker =>
      match queue.stages[worker]? with
      | some (.registered ticket) =>
          some ({ queue with waiting := queue.waiting.map fun _ => (queue.selection now).waiting
            }.setStage worker (queue.found now ticket))
      | _ => none
  | .sleep worker =>
      match queue.stages[worker]? with
      | some (.idle ticket moment) => some (queue.setStage worker (.asleep ticket moment))
      | _ => none
  | .rouse worker =>
      match queue.stages[worker]? with
      | some (.asleep ticket moment) =>
          if ticket < queue.rings ∨ moment ≤ now then some (queue.setStage worker .outside)
          else none
      | _ => none
  | .finish worker =>
      match queue.stages[worker]? with
      | some (.running _) => some (queue.setStage worker .outside)
      | _ => none

def endings (queue : Queue) (now : Nat) : Act → List (Request × Ending)
  | .enqueue request => if queue.waiting.isSome then [] else [(request, .queueClosed)]
  | .shut => (queue.waiting.getD []).map fun request => (request, .queueClosed)
  | .look _ => (queue.selection now).expired.map fun request => (request, .timedOut)
  | .finish worker =>
      match queue.stages[worker]? with
      | some (.running group) =>
          (RunQueue.shares group).map fun share => (share.1, .returned share.2)
      | _ => []
  | _ => []

/-- A worker with this ticket has been rung for, or will be, or need not be as nothing is left. -/
def Calls (queue : Queue) (ticket : Nat) : Prop :=
  ticket < queue.rings ∨ 0 < queue.owed ∨ queue.waiting = none

end Queue

inductive Shows (queue : Queue) : Stage → Worker → Prop
  | outside : Shows queue .outside .looking
  | inside : Shows queue .inside .looking
  | registered {ticket : Nat} (issued : ticket ≤ queue.rings) :
      Shows queue (.registered ticket) .looking
  | resting {stage : Stage} {ticket moment : Nat} (rests : stage.rest? = some (ticket, moment))
      (issued : ticket ≤ queue.rings) : Shows queue stage (.asleep moment)
  /-- A worker of a run wakes as soon as something has come that will be rung for. -/
  | called {stage : Stage} {ticket moment : Nat} (rests : stage.rest? = some (ticket, moment))
      (issued : ticket ≤ queue.rings) (calls : queue.Calls ticket) : Shows queue stage .looking
  | running (group : List Request) : Shows queue (.running group) (.running group)
  | stopped : Shows queue .stopped .stopped

structure Refines (fine : Queue) (queue : RunQueue) : Prop where
  device : fine.device = queue.device
  waiting : fine.waiting = queue.waiting
  workers : List.Forall₂ (Shows fine) fine.stages queue.workers

inductive Follows (place now : Nat) (fine : Queue) (act : Act) (next : Queue) (queue : RunQueue) :
    Prop
  | silent (pushed : act.pushed = []) (endings : fine.endings now act = [])
      (refines : Refines next queue) : Follows place now fine act next queue
  | event (event : Event) (placed : event.place? = some place)
      (pushed : event.pushed = act.pushed) (permitted : queue.permits event = true)
      (endings : queue.endings now event = fine.endings now act)
      (refines : Refines next (queue.after now event)) : Follows place now fine act next queue

section Lists

variable {α β : Type} {R : α → β → Prop} {left : List α} {right : List β}

theorem forall₂_set (all : List.Forall₂ R left right) (index : Nat) {item : α} {other : β}
    (here : R item other) : List.Forall₂ R (left.set index item) (right.set index other) := by
  induction all generalizing index with
  | nil => exact .nil
  | cons head tail ih =>
      cases index with
      | zero => exact .cons here tail
      | succ index => exact .cons head (ih index)

theorem exists_getElem?_of_forall₂ (all : List.Forall₂ R left right) {index : Nat} {item : α}
    (found : left[index]? = some item) : ∃ other, right[index]? = some other ∧ R item other := by
  induction all generalizing index with
  | nil => cases found
  | cons head tail ih =>
      cases index with
      | zero =>
          cases found
          exact ⟨_, rfl, head⟩
      | succ index => exact ih found

theorem forall₂_replicate (count : Nat) {item : α} {other : β} (here : R item other) :
    List.Forall₂ R (List.replicate count item) (List.replicate count other) := by
  induction count with
  | zero => exact .nil
  | succ count ih => exact .cons here ih

end Lists

section Steps

variable {fine next : Queue} {queue : RunQueue} {stage : Stage} {worker : Worker}

theorem Shows.mono (shown : Shows fine stage worker) (rings : fine.rings ≤ next.rings)
    (calls : ∀ ticket, ticket ≤ fine.rings → fine.Calls ticket → next.Calls ticket) :
    Shows next stage worker := by
  cases shown with
  | outside => exact .outside
  | inside => exact .inside
  | registered issued => exact .registered (Nat.le_trans issued rings)
  | resting rests issued => exact .resting rests (Nat.le_trans issued rings)
  | called rests issued called =>
      exact .called rests (Nat.le_trans issued rings) (calls _ issued called)
  | running group => exact .running group
  | stopped => exact .stopped

theorem Shows.woken (shown : Shows fine stage worker) (rings : fine.rings ≤ next.rings)
    (calls : ∀ ticket, next.Calls ticket) :
    Shows next stage (if worker.isAsleep then .looking else worker) := by
  cases shown with
  | resting rests issued => exact .called rests (Nat.le_trans issued rings) (calls _)
  | called rests issued called => exact .called rests (Nat.le_trans issued rings) (calls _)
  | registered issued => exact .registered (Nat.le_trans issued rings)
  | outside => exact .outside
  | inside => exact .inside
  | running group => exact .running group
  | stopped => exact .stopped

theorem Refines.setStage (refines : Refines fine queue) (index : Nat)
    (shown : Shows fine stage worker) :
    Refines (fine.setStage index stage) (queue.setWorker index worker) where
  device := refines.device
  waiting := refines.waiting
  workers := by
    apply forall₂_set _ index
    · exact shown.mono (Nat.le_refl _) fun _ _ calls => calls
    · exact refines.workers.imp fun _ _ shown =>
        shown.mono (Nat.le_refl _) fun _ _ calls => calls

theorem Refines.silently (refines : Refines fine queue) {index : Nat}
    (there : queue.workers[index]? = some worker) (shown : Shows fine stage worker) :
    Refines (fine.setStage index stage) queue := by
  have kept : queue.setWorker index worker = queue := by
    rcases List.getElem?_eq_some_iff.mp there with ⟨within, same⟩
    unfold RunQueue.setWorker
    rw [← same, List.set_getElem_self]
  have changed := refines.setStage index shown
  rwa [kept] at changed

theorem Refines.woken {waiting : Option (List Request)} (refines : Refines fine queue) :
    Refines { fine with waiting := waiting, owed := fine.owed + 1 }
      { queue with waiting := waiting }.wakeAll where
  device := refines.device
  waiting := rfl
  workers := by
    apply List.forall₂_map_right_iff.mpr
    apply refines.workers.imp
    intro stage worker shown
    exact shown.woken (Nat.le_refl fine.rings) fun _ => Or.inr (Or.inl (Nat.succ_pos fine.owed))

theorem Refines.pending (refines : Refines fine queue) : queue.pending = fine.waiting.getD [] := by
  rw [refines.waiting]
  rfl

variable {now place : Nat}

theorem Refines.selection (refines : Refines fine queue) :
    queue.selection now = fine.selection now := by
  unfold RunQueue.selection Queue.selection
  rw [refines.pending]

theorem follows_enqueue (refines : Refines fine queue) {request : Request}
    (stepped : fine.after? now (.enqueue request) = some next) :
    Follows place now fine (.enqueue request) next queue := by
  have same := refines.waiting
  simp only [Queue.after?] at stepped
  cases waiting : fine.waiting with
  | none =>
      rw [waiting] at stepped same
      cases stepped
      apply Follows.event (.push place request) rfl rfl rfl
      · simp [RunQueue.endings, Queue.endings, RunQueue.isOpen, ← same, waiting]
      · simpa [RunQueue.after, RunQueue.isOpen, ← same] using refines
  | some requests =>
      rw [waiting] at stepped same
      cases stepped
      apply Follows.event (.push place request) rfl rfl rfl
      · simp [RunQueue.endings, Queue.endings, RunQueue.isOpen, ← same, waiting]
      · simpa [RunQueue.after, RunQueue.isOpen, RunQueue.pending, ← same] using refines.woken

theorem follows_shut (refines : Refines fine queue) (stepped : fine.after? now .shut = some next) :
    Follows place now fine .shut next queue := by
  cases stepped
  apply Follows.event (.close place) rfl rfl rfl
  · simp only [RunQueue.endings, Queue.endings, refines.pending]
  · exact refines.woken

/-- Every ticket is from before this ring. -/
theorem follows_ring (refines : Refines fine queue) (stepped : fine.after? now .ring = some next) :
    Follows place now fine .ring next queue := by
  simp only [Queue.after?] at stepped
  split at stepped
  · cases stepped
  · cases stepped
    apply Follows.silent rfl rfl
    refine ⟨refines.device, refines.waiting, ?_⟩
    apply refines.workers.imp
    intro stage worker shown
    exact shown.mono (Nat.le_succ fine.rings) fun _ issued _ => Or.inl (Nat.lt_succ_of_le issued)

theorem follows_check (refines : Refines fine queue) {index : Nat}
    (stepped : fine.after? now (.check index) = some next) :
    Follows place now fine (.check index) next queue := by
  simp only [Queue.after?] at stepped
  split at stepped
  · rename_i there
    rcases exists_getElem?_of_forall₂ refines.workers there with ⟨worker, found, shown⟩
    cases stepped
    cases shown with
    | called rests | resting rests => cases rests
    | outside =>
        cases waiting : fine.waiting with
        | some requests => exact .silent rfl rfl (refines.silently found .inside)
        | none =>
            have closed : queue.waiting = none := refines.waiting ▸ waiting
            apply Follows.event (.look ⟨place, index⟩) rfl rfl
            · simp [RunQueue.permits, found, Worker.isLooking]
            · simp [RunQueue.endings, Queue.endings, RunQueue.selection, RunQueue.pending, closed,
                Selection.ofQueue]
            · have stopped := refines.setStage index Shows.stopped
              simpa [RunQueue.after, RunQueue.duty, RunQueue.setWorker, closed] using stopped
  · cases stepped

theorem follows_register (refines : Refines fine queue) {index : Nat}
    (stepped : fine.after? now (.register index) = some next) :
    Follows place now fine (.register index) next queue := by
  simp only [Queue.after?] at stepped
  split at stepped
  · rename_i there
    rcases exists_getElem?_of_forall₂ refines.workers there with ⟨worker, found, shown⟩
    cases stepped
    cases shown with
    | called rests | resting rests => cases rests
    | inside => exact .silent rfl rfl (refines.silently found (.registered (Nat.le_refl _)))
  · cases stepped

theorem found_of_closed (closed : fine.waiting = none) (ticket : Nat) :
    fine.found now ticket = .idle ticket (now + Dispatcher.idleWait) := by
  simp [Queue.found, Queue.selection, closed, Selection.ofQueue, Selection.choose]

theorem Refines.narrowed (refines : Refines fine queue) (isOpen : fine.waiting ≠ none)
    (waiting : Option (List Request)) :
    Refines { fine with waiting := waiting } { queue with waiting := waiting } where
  device := refines.device
  waiting := rfl
  workers := by
    have calls (ticket : Nat) : fine.Calls ticket →
        Queue.Calls { fine with waiting := waiting } ticket := by
      rintro (rung | owed | closed)
      · exact Or.inl rung
      · exact Or.inr (Or.inl owed)
      · exact absurd closed isOpen
    apply refines.workers.imp
    intro stage worker shown
    exact shown.mono (Nat.le_refl fine.rings) fun ticket _ => calls ticket

theorem shows_found (refines : Refines fine queue) (isOpen : fine.waiting ≠ none) {ticket : Nat}
    (issued : ticket ≤ next.rings) : Shows next (fine.found now ticket) (queue.duty now) := by
  have looks : queue.waiting.isNone = false := by
    rw [← refines.waiting]
    exact Option.isNone_eq_false_iff.mpr (Option.isSome_iff_ne_none.mpr isOpen)
  unfold Queue.found RunQueue.duty
  rw [looks, refines.selection, if_neg Bool.false_ne_true]
  split
  · exact .resting rfl issued
  · exact .running _

theorem follows_look (refines : Refines fine queue) {index : Nat}
    (stepped : fine.after? now (.look index) = some next) :
    Follows place now fine (.look index) next queue := by
  simp only [Queue.after?] at stepped
  split at stepped
  · rename_i ticket there
    rcases exists_getElem?_of_forall₂ refines.workers there with ⟨worker, found, shown⟩
    cases stepped
    cases shown with
    | called rests | resting rests => cases rests
    | registered issued =>
        cases waiting : fine.waiting with
        | none =>
            -- A run lets this worker stop at its look, which here comes with the next check.
            have kept : { fine with waiting := none } = fine := by
              rw [← waiting]
            rw [Option.map_none, kept, found_of_closed waiting]
            apply Follows.silent rfl
            · simp [Queue.endings, Queue.selection, waiting, Selection.ofQueue]
            · exact refines.silently found (.called rfl issued (Or.inr (Or.inr waiting)))
        | some requests =>
            have isOpen : fine.waiting ≠ none := by
              rw [waiting]
              exact Option.some_ne_none requests
            have same : queue.waiting = some requests := refines.waiting ▸ waiting
            apply Follows.event (.look ⟨place, index⟩) rfl rfl
            · simp [RunQueue.permits, found, Worker.isLooking]
            · simp only [RunQueue.endings, Queue.endings, refines.selection]
            · have left := refines.narrowed isOpen (some (fine.selection now).waiting)
              have shown : Shows { fine with waiting := some (fine.selection now).waiting }
                  (fine.found now ticket) (queue.duty now) := shows_found refines isOpen issued
              have looked := left.setStage index shown
              simpa only [RunQueue.after, same, Option.map_some, refines.selection] using looked
  · cases stepped

theorem follows_sleep (refines : Refines fine queue) {index : Nat}
    (stepped : fine.after? now (.sleep index) = some next) :
    Follows place now fine (.sleep index) next queue := by
  simp only [Queue.after?] at stepped
  split at stepped
  · rename_i there
    rcases exists_getElem?_of_forall₂ refines.workers there with ⟨worker, found, shown⟩
    cases stepped
    cases shown with
    | resting rests issued =>
        cases rests
        exact .silent rfl rfl (refines.silently found (.resting rfl issued))
    | called rests issued calls =>
        cases rests
        exact .silent rfl rfl (refines.silently found (.called rfl issued calls))
  · cases stepped

theorem follows_rouse (refines : Refines fine queue) {index : Nat}
    (stepped : fine.after? now (.rouse index) = some next) :
    Follows place now fine (.rouse index) next queue := by
  simp only [Queue.after?] at stepped
  split at stepped
  · rename_i there
    rcases exists_getElem?_of_forall₂ refines.workers there with ⟨worker, found, shown⟩
    split at stepped
    · cases stepped
      cases shown with
      | resting rests issued =>
          apply Follows.event (.wake ⟨place, index⟩) rfl rfl
          · simp [RunQueue.permits, found, Worker.isAsleep]
          · rfl
          · exact refines.setStage index .outside
      | called rests issued calls => exact .silent rfl rfl (refines.silently found .outside)
    · cases stepped
  · cases stepped

theorem follows_finish (refines : Refines fine queue) {index : Nat}
    (stepped : fine.after? now (.finish index) = some next) :
    Follows place now fine (.finish index) next queue := by
  simp only [Queue.after?] at stepped
  split at stepped
  · rename_i there
    rcases exists_getElem?_of_forall₂ refines.workers there with ⟨worker, found, shown⟩
    cases stepped
    cases shown with
    | called rests | resting rests => cases rests
    | running group =>
        apply Follows.event (.returnCall ⟨place, index⟩) rfl rfl
        · simp [RunQueue.permits, found, Worker.isRunning]
        · simp [RunQueue.endings, Queue.endings, found, there, Worker.group]
        · exact refines.setStage index .outside
  · cases stepped

theorem follows (refines : Refines fine queue) {act : Act}
    (stepped : fine.after? now act = some next) : Follows place now fine act next queue := by
  cases act with
  | enqueue request => exact follows_enqueue refines stepped
  | shut => exact follows_shut refines stepped
  | ring => exact follows_ring refines stepped
  | check index => exact follows_check refines stepped
  | register index => exact follows_register refines stepped
  | look index => exact follows_look refines stepped
  | sleep index => exact follows_sleep refines stepped
  | rouse index => exact follows_rouse refines stepped
  | finish index => exact follows_finish refines stepped

end Steps

/-! ### Whole histories -/

structure State where
  now : Nat
  queues : List Queue
  results : Table RequestId (Outcome (List Tensor))

def State.initial : State := ⟨0, [], .empty⟩

inductive Reaches : List Request → State → Prop
  | start : Reaches [] .initial
  | opens {pushed : List Request} {state : State} (reached : Reaches pushed state)
      (device : Device) (threads : Nat) :
      Reaches pushed { state with queues := state.queues ++ [.opened device threads] }
  | waits {pushed : List Request} {state : State} (reached : Reaches pushed state) {moment : Nat}
      (onward : state.now ≤ moment) : Reaches pushed { state with now := moment }
  | acts {pushed : List Request} {state : State} (reached : Reaches pushed state) {place : Nat}
      {act : Act} {queue next : Queue} (found : state.queues[place]? = some queue)
      (stepped : queue.after? state.now act = some next)
      (fresh : ∀ request ∈ act.pushed, request.id ∉ pushed.map Request.id) :
      Reaches (pushed ++ act.pushed)
        { state with
          queues := state.queues.set place next
          results := Dispatcher.settle state.results (queue.endings state.now act) }

structure Mirrors (state : State) (dispatcher : Dispatcher) : Prop where
  now : state.now = dispatcher.now
  results : state.results = dispatcher.results
  queues : List.Forall₂ Refines state.queues dispatcher.queues

theorem refines_opened (device : Device) (threads : Nat) :
    Refines (.opened device threads) (.opened device threads) where
  device := rfl
  waiting := rfl
  workers := forall₂_replicate _ .outside

theorem Mirrors.event {state : State} {dispatcher : Dispatcher} {place : Nat} {act : Act}
    {event : Event} {fine next : Queue} {queue : RunQueue} (mirrors : Mirrors state dispatcher)
    (placed : event.place? = some place) (found : dispatcher.queues[place]? = some queue)
    (permitted : queue.permits event = true)
    (endings : queue.endings state.now event = fine.endings state.now act)
    (refines : Refines next (queue.after state.now event)) :
    Mirrors
      { state with
        queues := state.queues.set place next
        results := Dispatcher.settle state.results (fine.endings state.now act) }
      (dispatcher.after event) where
  now := mirrors.now.trans (Change.of_place placed found permitted).now.symm
  results := by
    rw [(Change.of_place placed found permitted).results, ← mirrors.now, ← mirrors.results, endings]
  queues := by
    rw [(Change.of_place placed found permitted).queues, ← mirrors.now]
    exact forall₂_set mirrors.queues place refines

/-- Whatever smaller steps lead to, the events of a run lead to. -/
theorem Reaches.exists_run {pushed : List Request} {state : State}
    (reached : Reaches pushed state) :
    ∃ history dispatcher, Run history dispatcher ∧ history.pushed = pushed ∧
      Mirrors state dispatcher := by
  induction reached with
  | start => exact ⟨[], .initial, .start, rfl, rfl, rfl, .nil⟩
  | opens reached device threads ih =>
      obtain ⟨history, dispatcher, run, pushed, mirrors⟩ := ih
      have opened := run.step (.openQueue device threads) rfl nofun
      refine ⟨_, _, opened, ?_, mirrors.now, mirrors.results, ?_⟩
      · rw [History.pushed_snoc, pushed]
        exact List.append_nil _
      · exact List.rel_append mirrors.queues (.cons (refines_opened device threads) .nil)
  | @waits _ _ reached moment onward ih =>
      obtain ⟨history, dispatcher, run, pushed, mirrors⟩ := ih
      have permitted : dispatcher.permits (.advance moment) = true :=
        decide_eq_true (mirrors.now ▸ onward)
      have waited := run.step (.advance moment) permitted nofun
      refine ⟨_, _, waited, ?_, rfl, mirrors.results, mirrors.queues⟩
      rw [History.pushed_snoc, pushed]
      exact List.append_nil _
  | @acts _ state reached place act fine next found stepped fresh ih =>
      obtain ⟨history, dispatcher, run, pushed, mirrors⟩ := ih
      obtain ⟨queue, foundAt, refines⟩ := exists_getElem?_of_forall₂ mirrors.queues found
      have followed : Follows place state.now fine act next queue := follows refines stepped
      cases followed with
      | silent unpushed unended refines =>
          rw [unpushed, unended, List.append_nil]
          have mirrored := forall₂_set mirrors.queues place refines
          obtain ⟨within, same⟩ := List.getElem?_eq_some_iff.mp foundAt
          rw [← same, List.set_getElem_self] at mirrored
          exact ⟨history, dispatcher, run, pushed, mirrors.now, mirrors.results, mirrored⟩
      | event event placed same permitted endings refines =>
          have allowed := Dispatcher.permits_of_queue foundAt placed permitted
          have unheard : ∀ request ∈ event.pushed, request.id ∉ history.pushed.map Request.id := by
            rwa [same, pushed]
          refine ⟨_, _, run.step event allowed unheard, ?_,
            mirrors.event placed foundAt permitted endings refines⟩
          rw [History.pushed_snoc, same, pushed]

/-- A worker that has found nothing, asleep or not, is not left to sleep beside work: what can be
found before its moment has been rung for since its ticket, or will be. -/
theorem Reaches.rung_for_work {pushed : List Request} {state : State}
    (reached : Reaches pushed state) {place index ticket moment time : Nat} {queue : Queue}
    {stage : Stage} (found : state.queues[place]? = some queue)
    (there : queue.stages[index]? = some stage) (rests : stage.rest? = some (ticket, moment))
    (onward : state.now ≤ time) (early : time < moment)
    (work : (queue.selection time).group ≠ [] ∨ (queue.selection time).expired ≠ []) :
    ticket < queue.rings ∨ 0 < queue.owed := by
  obtain ⟨history, dispatcher, run, _, mirrors⟩ := reached.exists_run
  obtain ⟨seen, foundAt, refines⟩ := exists_getElem?_of_forall₂ mirrors.queues found
  obtain ⟨worker, thereAt, shown⟩ := exists_getElem?_of_forall₂ refines.workers there
  cases shown with
  | resting also issued =>
      cases rests.symm.trans also
      have member := List.mem_of_getElem? thereAt
      have idle := run.quiet foundAt moment member time (mirrors.now ▸ onward) early
      rw [refines.pending] at idle
      exact work.elim (absurd idle.1) (absurd idle.2)
  | called also issued calls =>
      cases rests.symm.trans also
      rcases calls with rung | owed | closed
      · exact Or.inl rung
      · exact Or.inr owed
      · simp [Queue.selection, closed, Selection.ofQueue, Selection.choose] at work
  | _ => cases rests

-- A push between the look and the sleep.
example :
    [.check 0, .register 0, .look 0, .enqueue (Sample.request ⟨1, 1, 0⟩ 0 none), .sleep 0, .ring,
      .rouse 0].foldlM (fun queue act => queue.after? 0 act) (Queue.opened .cpu 1) =
      some ⟨.cpu, some [Sample.request ⟨1, 1, 0⟩ 0 none], [.outside], 1, 0⟩ := by
  rfl

end InferenceStore.Fine
