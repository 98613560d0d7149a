import InferenceStore.Proofs.Service.Clients
import InferenceStore.Proofs.Service.Instances

/-
The store's own order of steps. Commands side by side are begun in their order; then, round by
round, workers take their turns, clients go on or stop waiting, calls return, and the clock moves.
Each of these is a step that a run permits. So what holds of every run holds of what the store
does with commands, and its replies are those of clients in a run.
-/

namespace InferenceStore

/-! ### Workers and the clock -/

namespace Dispatcher

variable {dispatcher state : Dispatcher}

/-- Steps without clients, and turns dealt out anew between them. -/
inductive Works (dispatcher : Dispatcher) : Dispatcher → Prop
  | refl : Works dispatcher dispatcher
  | step {state : Dispatcher} (works : Works dispatcher state) {event : Event}
      (permitted : state.permits event = true) (isWork : event.isWork = true) :
      Works dispatcher (state.after event)
  | reorder {state : Dispatcher} (works : Works dispatcher state) (turns calls : List WorkerId) :
      Works dispatcher { state with turns := turns, calls := calls }

theorem Works.each {event : WorkerId → Event} {ready : Worker → Bool}
    (acts : ∀ id, actor? (event id) = some id) (isWork : ∀ id, (event id).isWork = true)
    (permits : ∀ state id, permits state (event id) = (state.workerAt? id).any ready)
    {ids : List WorkerId} (distinct : ids.Nodup) (works : Works dispatcher state)
    (allReady : ∀ id ∈ ids, (state.workerAt? id).any ready = true) :
    Works dispatcher (ids.foldl (fun state id => state.after (event id)) state) := by
  induction ids generalizing state with
  | nil => exact works
  | cons id rest ih =>
      obtain ⟨absent, others⟩ := List.nodup_cons.mp distinct
      have permitted : state.permits (event id) = true :=
        (permits state id).trans (allReady id (List.mem_cons_self ..))
      apply ih others (works.step permitted (isWork id))
      intro other member
      rw [keeps_others (acts id) permitted (ne_of_mem_of_not_mem member absent)]
      exact allReady other (List.mem_cons_of_mem _ member)

theorem Orderly.works_takeTurns (orderly : dispatcher.Orderly) :
    dispatcher.Works dispatcher.takeTurns := by
  have cleared : dispatcher.Works { dispatcher with turns := [] } :=
    Works.refl.reorder [] dispatcher.calls
  refine cleared.each (fun id => show actor? (.look id) = some id from rfl) (fun _ => rfl)
    (fun _ _ => permits_look) orderly.turnsDistinct ?_
  intro id member
  have looking : Option.any Worker.isLooking (dispatcher.workerAt? id) = true := by
    rw [orderly.turns id member]
    rfl
  exact looking

theorem Orderly.works_nextReturn (orderly : dispatcher.Orderly) {returned : Dispatcher}
    (returns : dispatcher.nextReturn? = some returned) : dispatcher.Works returned := by
  unfold nextReturn? at returns
  cases called : dispatcher.calls with
  | nil =>
      rw [called] at returns
      cases returns
  | cons id rest =>
      rw [called] at returns
      cases returns
      have taken : dispatcher.Works { dispatcher with calls := rest } :=
        Works.refl.reorder dispatcher.turns rest
      have running := orderly.calls id (called ▸ List.mem_cons_self ..)
      exact taken.step (permits_returnCall.trans running) rfl

theorem works_advanceTo {moment : Nat} (onward : dispatcher.now ≤ moment) :
    dispatcher.Works (dispatcher.advanceTo moment) := by
  have permitted : dispatcher.permits (.advance moment) = true := decide_eq_true onward
  have later : dispatcher.Works { dispatcher with now := moment } := Works.refl.step permitted rfl
  exact later.each (fun id => show actor? (.wake id) = some id from rfl) (fun _ => rfl)
    (fun _ _ => permits_wake) (Backed.dueWorkers_nodup _) fun id due => Backed.asleep_of_due due

theorem now_advanceTo (dispatcher : Dispatcher) (moment : Nat) :
    (dispatcher.advanceTo moment).now = moment := by
  have kept (ids : List WorkerId) (state : Dispatcher) :
      (ids.foldl wake state).now = state.now := by
    induction ids generalizing state with
    | nil => rfl
    | cons id rest ih =>
        rw [List.foldl_cons, ih]
        unfold wake
        split <;> rfl
  exact kept _ _

theorem now_tick_le (dispatcher : Dispatcher) (limit : Nat) :
    (dispatcher.tick limit).now ≤ limit := by
  rw [tick, now_advanceTo]
  exact Nat.min_le_left ..

theorem works_tick {limit : Nat} (inTime : dispatcher.now ≤ limit) :
    dispatcher.Works (dispatcher.tick limit) :=
  works_advanceTo (Nat.le_min.mpr ⟨inTime, Nat.le_max_left ..⟩)

theorem Works.trans {final : Dispatcher} (first : dispatcher.Works state)
    (second : state.Works final) : dispatcher.Works final := by
  induction second with
  | refl => exact first
  | step _ permitted isWork ih => exact ih.step permitted isWork
  | reorder _ turns calls ih => exact ih.reorder turns calls

theorem Driven.works_runRounds (isOver : Dispatcher → Bool) {limit : Nat} (rounds : Nat)
    (driven : dispatcher.Driven) (inTime : dispatcher.now ≤ limit) :
    dispatcher.Works (Dispatcher.runRounds isOver limit rounds dispatcher) := by
  induction rounds generalizing dispatcher with
  | zero => exact .refl
  | succ rounds ih =>
      have settled := driven.takeTurns
      have turns := driven.backed.orderly.works_takeTurns
      have settledInTime := (now_takeTurns dispatcher).symm ▸ inTime
      simp only [Dispatcher.runRounds]
      split
      · exact turns
      · split
        · rename_i returned returns
          have back := settled.backed.orderly.works_nextReturn returns
          exact (turns.trans back).trans (ih (settled.nextReturn returns)
            ((now_nextReturn returns).symm ▸ settledInTime))
        · have ticked := turns.trans (works_tick settledInTime)
          split
          · exact ticked
          · rename_i running
            exact ticked.trans (ih (settled.tick settledInTime) (Nat.le_of_not_le running))

theorem Driven.works_runUntil (driven : dispatcher.Driven) (isOver : Dispatcher → Bool)
    (limit : Nat) : dispatcher.Works (dispatcher.runUntil isOver limit) := by
  unfold Dispatcher.runUntil
  split
  · exact .refl
  · rename_i running
    exact driven.works_runRounds isOver _ (Nat.le_of_not_le (not_or.mp running).2)

end Dispatcher

/-! ### Commands -/

namespace Engine

variable {engine middle after : Engine}

/-- What commands do to the run queues is what their dispatcher lets clients do, and takes no
time. -/
structure Kept (engine after : Engine) : Prop where
  driven : engine.dispatcher.Driven → after.dispatcher.Driven
  now : after.dispatcher.now = engine.dispatcher.now

namespace Kept

theorem of_same (same : after.dispatcher = engine.dispatcher) : engine.Kept after :=
  ⟨fun driven => same ▸ driven, congrArg Dispatcher.now same⟩

theorem refl (engine : Engine) : engine.Kept engine := of_same rfl

theorem trans (first : engine.Kept middle) (second : middle.Kept after) : engine.Kept after :=
  ⟨fun driven => second.driven (first.driven driven), second.now.trans first.now⟩

theorem write (engine : Engine) (written : Outcome Keyspace) :
    engine.Kept (engine.write written).1 := by
  cases written <;> exact of_same rfl

theorem ensureQueue (engine : Engine) (device : Device) :
    engine.Kept (engine.ensureQueue device).1 := by
  unfold Engine.ensureQueue
  split
  · exact refl engine
  · exact ⟨fun driven => driven.openQueue device engine.threadsPerQueue, rfl⟩

theorem submit (engine : Engine) (target : Target) (inputs : List Tensor) (outputCount : Nat)
    (deadline : Option Nat) :
    engine.Kept (engine.submit target inputs outputCount deadline).1 := by
  refine (ensureQueue engine target.device).trans ⟨fun driven => ?_, ?_⟩
  · exact driven.submit (place_of_ensureQueue engine target.device) target inputs outputCount
      deadline
  · have found := List.getElem?_eq_getElem (place_of_ensureQueue engine target.device)
    exact (Change.push found _).now

theorem readyFor (engine : Engine) (value : Value) : engine.Kept (engine.readyFor value) := by
  unfold Engine.readyFor
  cases value.device? with
  | none => exact refl engine
  | some device => exact ensureQueue engine device

theorem of_puts {step : Engine × Outcome Reply} (puts : engine.Puts step) :
    engine.Kept step.1 := by
  obtain ⟨key, ⟨loaded, cause | value⟩, load, rfl⟩ := puts
  · exact of_same load.keeps.dispatcher
  · exact (of_same load.keeps.dispatcher).trans ((readyFor loaded value).trans (write _ _))

theorem deleteModel (engine : Engine) (arguments : List Bytes) :
    engine.Kept (engine.deleteModel arguments).1 := by
  unfold Engine.deleteModel
  split
  · split <;> exact of_same rfl
  · exact refl engine

theorem deleteScript (engine : Engine) (arguments : List Bytes) :
    engine.Kept (engine.deleteScript arguments).1 := by
  unfold Engine.deleteScript
  split
  · split <;> exact of_same rfl
  · exact refl engine

theorem info (engine : Engine) (arguments : List Bytes) :
    engine.Kept (engine.info arguments).1 := by
  unfold Engine.info
  split
  · split <;> exact refl engine
  · split
    · exact refl engine
    · split
      · exact refl engine
      · split
        · exact refl engine
        · rename_i id _ _
          exact ⟨fun driven => driven.reset id, rfl⟩
  · exact refl engine

theorem configure (engine : Engine) (arguments : List Bytes) :
    engine.Kept (engine.configure arguments).1 := by
  unfold Engine.configure
  split <;> exact of_same rfl

theorem byHost (engine : Engine) (action : HostAction) : engine.Kept (engine.byHost action) := by
  cases action with
  | register backend => exact of_same rfl
  | restoreModel key data => exact of_puts (puts_restoreModel engine key data)
  | restoreScript key data => exact of_puts (puts_restoreScript engine key data)
  | restoreTensor key data => exact of_puts (puts_restoreTensor engine key data)
  | place key data => exact of_same rfl
  | link key other =>
      simp only [Engine.byHost, Engine.link]
      split <;> exact of_same rfl
  | remove key => exact of_same rfl

end Kept

/-- Where a graph waits in the end, it does not wait beyond this deadline. -/
structure Timely (engine : Engine) (deadline : Option Nat) (outcome : Engine × Progress) : Prop
    where
  kept : engine.Kept outcome.1
  deadline : ∀ execution, outcome.2 = .waiting execution → execution.deadline = deadline

theorem timely_finished (kept : engine.Kept after) (deadline : Option Nat) (reply : Reply) :
    engine.Timely deadline (after, .finished reply) :=
  ⟨kept, fun _ same => by cases same⟩

theorem timely_runOps (engine : Engine) (dag : Dag) (deadline : Option Nat) (context : Context)
    (replies : List Reply) (ops : List Op) :
    engine.Timely deadline (engine.runOps dag deadline context replies ops) := by
  obtain ⟨deeds, final, _, turn⟩ := engine.runOps_turn dag deadline context replies ops
  generalize engine.runOps dag deadline context replies ops = outcome at turn
  cases turn with
  | ended course told => exact ⟨.of_same rfl, fun _ same => by cases same⟩
  | asks course told step =>
      refine ⟨.submit engine _ _ _ _, ?_⟩
      rintro execution ⟨rfl⟩
      rfl

theorem timely_resume (engine : Engine) (execution : Execution) (result : Outcome (List Tensor)) :
    engine.Timely execution.deadline (engine.resume execution result) := by
  unfold resume
  dsimp only
  split
  · exact timely_runOps ..
  · exact timely_finished (.refl engine) _ _
  · exact timely_runOps ..

def Prompt (engine : Engine) (outcome : Engine × Progress) : Prop :=
  ∃ deadline, engine.Timely deadline outcome ∧ ∀ moment ∈ deadline, engine.dispatcher.now ≤ moment

theorem prompt_finished (kept : engine.Kept after) (reply : Reply) :
    engine.Prompt (after, .finished reply) :=
  ⟨none, timely_finished kept none reply, nofun⟩

theorem prompt_startParsed (engine : Engine) (parsed : Outcome Dag) :
    engine.Prompt (engine.startParsed parsed) := by
  unfold startParsed
  split
  · exact prompt_finished (.refl engine) _
  · rename_i dag
    cases refusal : engine.refusal? dag with
    | some cause =>
        rw [start_of_refusal refusal]
        exact prompt_finished (.refl engine) _
    | none =>
        obtain ⟨loaded, _, runs⟩ := start_of_accepted refusal
        rw [runs]
        refine ⟨_, timely_runOps .., ?_⟩
        intro moment member
        obtain ⟨timeout, _, rfl⟩ := Option.map_eq_some_iff.mp (Option.mem_def.mp member)
        exact Nat.le_add_right ..

theorem prompt_begin (engine : Engine) (arguments : List Bytes) :
    engine.Prompt (engine.begin arguments) := by
  unfold Engine.begin
  dsimp only
  split
  · exact prompt_finished (.of_puts (puts_setTensor engine arguments)) _
  · exact prompt_finished (.refl engine) _
  · exact prompt_finished (.of_puts (putsFree_storeModel engine _ arguments).puts) _
  · exact prompt_finished (.of_puts (putsFree_storeModel engine _ arguments).puts) _
  · exact prompt_finished (.refl engine) _
  · exact prompt_finished (.deleteModel engine arguments) _
  · exact prompt_finished (.refl engine) _
  · exact prompt_finished (.of_puts (putsFree_storeScript engine _).puts) _
  · exact prompt_finished (.of_puts (putsFree_storeScript engine _).puts) _
  · exact prompt_finished (.refl engine) _
  · exact prompt_finished (.deleteScript engine arguments) _
  · exact prompt_finished (.refl engine) _
  · exact prompt_startParsed engine _
  · exact prompt_startParsed engine _
  · exact prompt_startParsed engine _
  · exact prompt_startParsed engine _
  · exact prompt_finished (.info engine arguments) _
  · exact prompt_finished (.configure engine arguments) _
  · split
    · exact prompt_startParsed engine _
    · exact prompt_finished (.refl engine) _

end Engine

/-! ### Rounds -/

namespace Service

variable {store engine : Engine} {earlier front rest sessions : List Session} {session : Session}

/-- A run leads to the store with these clients, and nobody of the last of them has waited
beyond a moment at which it acts. -/
structure Led (store engine : Engine) (earlier sessions : List Session) : Prop where
  reached : ∃ history, Run store history ⟨engine, earlier ++ sessions⟩
  driven : engine.dispatcher.Driven
  inTime : ∀ session ∈ sessions, ∀ moment ∈ session.moments, engine.dispatcher.now ≤ moment

def limit (engine : Engine) (sessions : List Session) : Nat :=
  (sessions.flatMap Session.moments).min?.getD engine.dispatcher.now

theorem limit_le (engine : Engine) (member : session ∈ sessions) {moment : Nat}
    (acts : moment ∈ session.moments) : limit engine sessions ≤ moment := by
  have among : moment ∈ sessions.flatMap Session.moments :=
    List.mem_flatMap.mpr ⟨session, member, acts⟩
  unfold limit
  cases least : (sessions.flatMap Session.moments).min? with
  | none =>
      rw [List.min?_eq_none_iff.mp least] at among
      cases among
  | some first => exact (List.min?_eq_some_iff.mp least).2 moment among

theorem le_limit
    (inTime : ∀ session ∈ sessions, ∀ moment ∈ session.moments, engine.dispatcher.now ≤ moment) :
    engine.dispatcher.now ≤ limit engine sessions := by
  unfold limit
  cases least : (sessions.flatMap Session.moments).min? with
  | none => exact Nat.le_refl _
  | some first =>
      obtain ⟨session, member, acts⟩ := List.mem_flatMap.mp (List.min?_eq_some_iff.mp least).1
      exact inTime session member first acts

theorem Run.works {history : History} {service : Service} {dispatcher : Dispatcher}
    (run : Run store history service) (works : service.engine.dispatcher.Works dispatcher) :
    ∃ later, Run store later
      ⟨{ service.engine with dispatcher := dispatcher }, service.clients⟩ := by
  induction works with
  | refl => exact ⟨history, run⟩
  | step _ permitted isWork ih =>
      obtain ⟨later, onward⟩ := ih
      exact ⟨_, onward.step (.work _) (Bool.and_eq_true_iff.mpr ⟨isWork, permitted⟩)⟩
  | reorder _ turns calls ih =>
      obtain ⟨later, onward⟩ := ih
      exact ⟨_, onward.step (.reorder turns calls) rfl⟩

namespace Led

theorem works (led : Led store engine earlier sessions) {dispatcher : Dispatcher}
    (works : engine.dispatcher.Works dispatcher) (driven : dispatcher.Driven)
    (inTime : ∀ session ∈ sessions, ∀ moment ∈ session.moments, dispatcher.now ≤ moment) :
    Led store { engine with dispatcher := dispatcher } earlier sessions := by
  obtain ⟨history, run⟩ := led.reached
  exact ⟨run.works works, driven, inTime⟩

theorem takeTurns (led : Led store engine earlier sessions) :
    Led store { engine with dispatcher := engine.dispatcher.takeTurns } earlier sessions := by
  apply led.works led.driven.backed.orderly.works_takeTurns led.driven.takeTurns
  rw [Dispatcher.now_takeTurns]
  exact led.inTime

theorem nextReturn (led : Led store engine earlier sessions) {returned : Dispatcher}
    (returns : engine.dispatcher.nextReturn? = some returned) :
    Led store { engine with dispatcher := returned } earlier sessions := by
  apply led.works (led.driven.backed.orderly.works_nextReturn returns)
    (led.driven.nextReturn returns)
  rw [Dispatcher.now_nextReturn returns]
  exact led.inTime

theorem tick (led : Led store engine earlier sessions) :
    Led store { engine with dispatcher := engine.dispatcher.tick (limit engine sessions) } earlier
      sessions := by
  apply led.works (Dispatcher.works_tick (le_limit led.inTime))
    (led.driven.tick (le_limit led.inTime))
  intro session member moment acts
  exact Nat.le_trans (Dispatcher.now_tick_le ..) (limit_le engine member acts)

private theorem getElem?_middle : (earlier ++ (front ++ session :: rest))[earlier.length +
    front.length]? = some session := by
  rw [List.getElem?_append_right (Nat.le_add_right ..), Nat.add_sub_cancel_left,
    List.getElem?_append_right (Nat.le_refl _), Nat.sub_self, List.getElem?_cons_zero]

private theorem set_middle (other : Session) :
    (earlier ++ (front ++ session :: rest)).set (earlier.length + front.length) other =
      earlier ++ (front ++ other :: rest) := by
  rw [List.set_append_right _ _ (Nat.le_add_right ..), Nat.add_sub_cancel_left,
    List.set_append_right _ _ (Nat.le_refl _), Nat.sub_self, List.set_cons_zero]

private theorem become (led : Led store engine earlier (front ++ session :: rest))
    {action : Action} {next : Engine} {other : Session}
    (permitted : permits ⟨engine, earlier ++ (front ++ session :: rest)⟩ action = true)
    (acts : after ⟨engine, earlier ++ (front ++ session :: rest)⟩ action =
      ⟨next, (earlier ++ (front ++ session :: rest)).set (earlier.length + front.length) other⟩)
    (kept : engine.Kept next) (moments : other.moments ⊆ session.moments) :
    Led store next earlier (front ++ other :: rest) := by
  obtain ⟨history, run⟩ := led.reached
  have onward := run.step action permitted
  rw [acts, set_middle] at onward
  refine ⟨⟨_, onward⟩, kept.driven led.driven, ?_⟩
  intro each member moment limits
  rw [kept.now]
  rcases List.mem_append.mp member with before | here
  · exact led.inTime each (List.mem_append_left _ before) moment limits
  · rcases List.mem_cons.mp here with rfl | behind
    · exact led.inTime session (List.mem_append_right _ (List.mem_cons_self ..)) moment
        (moments limits)
    · exact led.inTime each (List.mem_append_right _ (List.mem_cons_of_mem _ behind)) moment limits

theorem pollOne (led : Led store engine earlier (front ++ session :: rest)) :
    Led store (engine.pollOne session).1 earlier
      (front ++ (engine.pollOne session).2 :: rest) := by
  cases session with
  | answered reply => exact led
  | gaveUp => exact led
  | waiting execution giveUpAt =>
      let service : Service := ⟨engine, earlier ++ (front ++ .waiting execution giveUpAt :: rest)⟩
      let client := earlier.length + front.length
      have waits : service.clients[client]? = some (.waiting execution giveUpAt) := getElem?_middle
      unfold Engine.pollOne
      dsimp only
      split
      · rename_i result returned
        have timely := engine.timely_resume execution result
        have permitted : service.permits (.resume client) = true := by
          rw [permits, waits]
          exact Option.isSome_iff_exists.mpr ⟨result, returned⟩
        refine led.become permitted (clients_resume waits returned) timely.kept ?_
        intro moment limits
        cases outcome : (engine.resume execution result).2 with
        | finished reply =>
            rw [outcome] at limits
            cases limits
        | waiting other =>
            rw [outcome] at limits
            simp only [Session.ofProgress, Session.moments] at limits ⊢
            rwa [timely.deadline other outcome] at limits
      · split
        · rename_i due
          have permitted : service.permits (.expire client) = true := by
            rw [permits, waits]
            exact due
          exact led.become permitted rfl (.refl engine) fun _ limits => by cases limits
        · split
          · have permitted : service.permits (.abandon client) = true := by
              rw [permits, waits]
              rfl
            exact led.become permitted rfl (.refl engine) fun _ limits => by cases limits
          · exact led

theorem poll (led : Led store engine earlier (front ++ sessions)) :
    Led store (engine.poll sessions).1 earlier (front ++ (engine.poll sessions).2) := by
  induction sessions generalizing engine front with
  | nil => exact led
  | cons session rest ih =>
      have polled := led.pollOne
      rw [← List.singleton_append, ← List.append_assoc] at polled
      have others := ih polled
      rw [List.append_assoc] at others
      exact others

theorem pollAll (led : Led store engine earlier sessions) :
    Led store (engine.poll sessions).1 earlier (engine.poll sessions).2 :=
  @poll store engine earlier [] sessions led

theorem beginAll (led : Led store engine earlier front) (patience : Nat)
    (commands : List (List Bytes)) :
    Led store (engine.beginAll patience commands).1 earlier
      (front ++ (engine.beginAll patience commands).2) := by
  induction commands generalizing engine front with
  | nil =>
      rw [Engine.beginAll, List.append_nil]
      exact led
  | cons arguments rest ih =>
      obtain ⟨history, run⟩ := led.reached
      obtain ⟨deadline, timely, inTime⟩ := engine.prompt_begin arguments
      let giveUpAt := engine.dispatcher.now + patience
      have onward := run.step (.command arguments giveUpAt) rfl
      simp only [after, List.append_assoc] at onward
      have begun : Led store (engine.begin arguments).1 earlier
          (front ++ [.ofProgress giveUpAt (engine.begin arguments).2]) := by
        refine ⟨⟨_, onward⟩, timely.kept.driven led.driven, ?_⟩
        intro session member moment limits
        rw [timely.kept.now]
        rcases List.mem_append.mp member with before | last
        · exact led.inTime session before moment limits
        · rw [List.mem_singleton.mp last] at limits
          cases outcome : (engine.begin arguments).2 with
          | finished reply =>
              rw [outcome] at limits
              cases limits
          | waiting execution =>
              rw [outcome] at limits
              rcases List.mem_cons.mp limits with rfl | due
              · exact Nat.le_add_right ..
              · rw [timely.deadline execution outcome] at due
                exact inTime moment (Option.mem_toList.mp due)
      have others := ih begun
      rw [List.append_assoc] at others
      exact others

theorem runRounds (led : Led store engine earlier sessions) (rounds : Nat) :
    Led store (Engine.runRounds rounds engine sessions).1 earlier
      (Engine.runRounds rounds engine sessions).2 := by
  induction rounds generalizing engine sessions with
  | zero => exact led
  | succ rounds ih =>
      have polled := led.takeTurns.pollAll
      simp only [Engine.runRounds]
      split
      · exact polled
      · split
        · exact ih polled
        · split
          · rename_i returned returns
            exact ih (polled.nextReturn returns)
          · have ticked := polled.tick.pollAll
            split
            · exact ticked
            · exact ih ticked

theorem executeAll (led : Led store engine earlier []) (patience : Nat)
    (commands : List (List Bytes)) :
    ∃ sessions, Led store (engine.executeAll patience commands).1 earlier sessions ∧
      (engine.executeAll patience commands).2 = sessions.map Session.reply? := by
  have begun := led.beginAll patience commands
  rw [List.nil_append] at begun
  unfold Engine.executeAll
  dsimp only
  split
  · exact ⟨_, begun, rfl⟩
  · exact ⟨_, begun.runRounds _, rfl⟩

end Led

/-- What a store comes to that started empty, as hosts use it: they act on their own, have
commands executed side by side, and let time pass. -/
inductive Operated (config : Config) (clustered : Bool) : Engine → Prop
  | start : Operated config clustered (.create config clustered)
  | host {engine : Engine} (operated : Operated config clustered engine) (action : HostAction) :
      Operated config clustered (engine.byHost action)
  | execute {engine : Engine} (operated : Operated config clustered engine) (patience : Nat)
      (commands : List (List Bytes)) :
      Operated config clustered (engine.executeAll patience commands).1
  | sleep {engine : Engine} (operated : Operated config clustered engine) (milliseconds : Nat) :
      Operated config clustered (engine.sleep milliseconds)

namespace Operated

variable {config : Config} {clustered : Bool}

theorem led (operated : Operated config clustered engine) :
    ∃ clients, Led (.create config clustered) engine clients [] := by
  induction operated with
  | start => exact ⟨[], ⟨[], .start⟩, .start, nofun⟩
  | host operated action ih =>
      obtain ⟨clients, ⟨history, run⟩, driven, _⟩ := ih
      have onward := run.step (.host action) rfl
      exact ⟨clients, ⟨_, onward⟩, (Engine.Kept.byHost _ action).driven driven, nofun⟩
  | execute operated patience commands ih =>
      obtain ⟨clients, led⟩ := ih
      obtain ⟨sessions, done, _⟩ := led.executeAll patience commands
      obtain ⟨history, run⟩ := done.reached
      refine ⟨clients ++ sessions, ⟨history, ?_⟩, done.driven, nofun⟩
      rw [List.append_nil]
      exact run
  | sleep operated milliseconds ih =>
      obtain ⟨clients, led⟩ := ih
      exact ⟨clients, led.works (led.driven.works_runUntil _ _) (led.driven.runUntil _ _) nofun⟩

/-- The replies of commands that a store executes side by side are those of its last clients in a
run, which leads to the store behind them. -/
theorem exists_run (operated : Operated config clustered engine) (patience : Nat)
    (commands : List (List Bytes)) :
    ∃ history earlier sessions,
      Run (.create config clustered) history
        ⟨(engine.executeAll patience commands).1, earlier ++ sessions⟩ ∧
      (engine.executeAll patience commands).2 = sessions.map Session.reply? := by
  obtain ⟨earlier, led⟩ := operated.led
  obtain ⟨sessions, done, replies⟩ := led.executeAll patience commands
  obtain ⟨history, run⟩ := done.reached
  exact ⟨history, earlier, sessions, run, replies⟩

end Operated

end Service

end InferenceStore
