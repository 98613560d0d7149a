import InferenceStore.Proofs.Service.Instances

/-
Stores that clients reach. Every command, every result that a client goes on with, and whatever
workers, the clock and the host do leads from a sound store to a sound one. The store starts empty,
so it is sound in every run, and whatever waits in it is known.
-/

namespace InferenceStore

open Command

namespace Engine

variable {engine : Engine} {records : Records}

/-! ### Management -/

namespace Sound

theorem remove (sound : engine.Sound records) (key : String) :
    SoundAfter { engine with keyspace := engine.keyspace.remove key } records :=
  (sound.withKeyspace (sound.keys.remove key)).after

theorem deleteModel (sound : engine.Sound records) (arguments : List Bytes) :
    (engine.deleteModel arguments).1.SoundAfter records := by
  unfold Engine.deleteModel
  split
  · split
    · exact sound.after
    · exact sound.remove _
  · exact sound.after

theorem deleteScript (sound : engine.Sound records) (arguments : List Bytes) :
    (engine.deleteScript arguments).1.SoundAfter records := by
  unfold Engine.deleteScript
  split
  · split
    · exact sound.after
    · exact sound.remove _
  · exact sound.after

theorem info (sound : engine.Sound records) (arguments : List Bytes) :
    (engine.info arguments).1.SoundAfter records := by
  have booked (ledger : Ledger) : (engine.setLedger ledger).SoundAfter records := by
    have alike : engine.dispatcher.Alike { engine.dispatcher with ledger := ledger } :=
      ⟨rfl, rfl, rfl⟩
    exact (sound.withDispatcher alike rfl).after
  unfold Engine.info
  split
  · split <;> exact sound.after
  · split
    · exact sound.after
    · split
      · exact sound.after
      · split
        · exact sound.after
        · exact booked _
  · exact sound.after

theorem configure (sound : engine.Sound records) (arguments : List Bytes) :
    (engine.configure arguments).1.SoundAfter records := by
  unfold Engine.configure
  split
  · exact sound.after
  · exact ⟨records, .refl records, sound.congr rfl rfl rfl⟩

theorem link (sound : engine.Sound records) (key other : String) :
    (engine.link key other).SoundAfter records := by
  unfold Engine.link
  split
  · exact sound.after
  · rename_i value held
    exact (sound.withKeyspace (sound.keys.set other (sound.keys key value held))).after

theorem byHost (sound : engine.Sound records) (action : HostAction) :
    (engine.byHost action).SoundAfter records := by
  cases action with
  | register backend => exact ⟨records, .refl records, sound.congr rfl rfl rfl⟩
  | restoreModel key data => exact sound.puts (puts_restoreModel engine key data)
  | restoreScript key data => exact sound.puts (puts_restoreScript engine key data)
  | restoreTensor key data => exact sound.puts (puts_restoreTensor engine key data)
  | place key data =>
      have known : (Value.foreign data).Known records := trivial
      exact (sound.withKeyspace (sound.keys.set key known)).after
  | link key other => exact sound.link key other
  | remove key => exact sound.remove key

end Sound

/-! ### Graphs -/

/-- A sound store, and a client that waits for something known if it waits. -/
def Progressed (records : Records) (outcome : Engine × Progress) : Prop :=
  ∃ later, records.Within later ∧ outcome.1.Sound later ∧
    ∀ execution, outcome.2 = .waiting execution → execution.Known later

theorem SoundAfter.finished (sound : engine.SoundAfter records) (reply : Reply) :
    Progressed records (engine, .finished reply) := by
  obtain ⟨later, within, soundLater⟩ := sound
  exact ⟨later, within, soundLater, nofun⟩

namespace Sound

variable {dag : Dag} {deadline : Option Nat} {context final : Context} {replies : List Reply}
  {ops : List Op} {deeds : List Deed} {outcome : Engine × Progress}

theorem turn (sound : engine.Sound records) (known : ∀ op ∈ ops, op.Known records)
    (turn : engine.Turn dag deadline context replies ops deeds final outcome) :
    Progressed records outcome := by
  cases turn with
  | ended course told => exact (sound.withKeyspace (sound.keys.persist _ _)).after.finished _
  | @asks op rest target inputs course told step =>
      have member : op ∈ ops := by
        rw [told]
        exact List.mem_append_right _ (List.mem_cons_self ..)
      obtain ⟨runs, _, _⟩ := Op.step_eq_request.mp step
      obtain ⟨catalogued, equipped⟩ := known op member target runs
      obtain ⟨later, within, soundLater, asked⟩ :=
        sound.submit inputs deadline catalogued equipped
      refine ⟨later, within, soundLater, ?_⟩
      rintro execution ⟨rfl⟩
      refine ⟨fun other among => (known other ?_).mono within, asked⟩
      rw [told]
      exact List.mem_append_right _ (List.mem_cons_of_mem _ among)

theorem runOps (sound : engine.Sound records) (known : ∀ op ∈ ops, op.Known records)
    (dag : Dag) (deadline : Option Nat) (context : Context) (replies : List Reply) :
    Progressed records (engine.runOps dag deadline context replies ops) := by
  obtain ⟨deeds, final, _, turns⟩ := engine.runOps_turn dag deadline context replies ops
  exact sound.turn known turns

theorem startParsed (sound : engine.Sound records) {parsed : Outcome Dag}
    (held : ∀ dag, parsed = .ok dag → ∀ op ∈ dag.ops, op.Held engine.keyspace) :
    Progressed records (engine.startParsed parsed) := by
  cases parsed with
  | error cause => exact sound.after.finished _
  | ok dag =>
      have known : ∀ op ∈ dag.ops, op.Known records :=
        fun op member => sound.keys.held (held dag rfl op member)
      unfold Engine.startParsed
      cases refusal : engine.refusal? dag with
      | some cause =>
          dsimp only
          rw [Engine.start_of_refusal refusal]
          exact sound.after.finished _
      | none =>
          obtain ⟨loaded, _, runs⟩ := Engine.start_of_accepted refusal
          dsimp only
          rw [runs]
          exact sound.runOps known _ _ _ _

theorem startSingle {run : Type} (sound : engine.Sound records) {parsed : Outcome run}
    {op : run → Op} (held : ∀ run, parsed = .ok run → (op run).Held engine.keyspace) :
    Progressed records (engine.startParsed (parsed.map fun run => Dag.single (op run))) := by
  refine sound.startParsed fun dag read => ?_
  obtain ⟨run, parses, rfl⟩ := Outcome.map_eq_ok.mp read
  exact List.forall_mem_singleton.mpr (held run parses)

theorem begin (sound : engine.Sound records) (arguments : List Bytes) :
    Progressed records (engine.begin arguments) := by
  unfold Engine.begin
  dsimp only
  split
  · exact (sound.puts (puts_setTensor engine arguments)).finished _
  · exact sound.after.finished _
  · exact (sound.puts (putsFree_storeModel engine _ arguments).puts).finished _
  · exact (sound.puts (putsFree_storeModel engine _ arguments).puts).finished _
  · exact sound.after.finished _
  · exact (sound.deleteModel arguments).finished _
  · exact sound.after.finished _
  · exact (sound.puts (putsFree_storeScript engine _).puts).finished _
  · exact (sound.puts (putsFree_storeScript engine _).puts).finished _
  · exact sound.after.finished _
  · exact (sound.deleteScript arguments).finished _
  · exact sound.after.finished _
  · exact sound.startSingle fun run => ModelRun.fits_of_execute
  · exact sound.startSingle fun run => ModelRun.fits_of_run
  · exact sound.startSingle fun run => ScriptRun.held_of_execute
  · exact sound.startSingle fun run => ScriptRun.held_of_run
  · exact (sound.info arguments).finished _
  · exact (sound.configure arguments).finished _
  · split
    · exact sound.startParsed fun dag read => (Dag.read_of_arguments read).held
    · exact sound.after.finished _

theorem resume (sound : engine.Sound records) {execution : Execution}
    (known : execution.Known records) (result : Outcome (List Tensor)) :
    Progressed records (engine.resume execution result) := by
  unfold Engine.resume
  dsimp only
  split
  · exact sound.runOps known.rest _ _ _ _
  · exact sound.after.finished _
  · exact sound.runOps known.rest _ _ _ _

end Sound

theorem sound_create (config : Config) (clustered : Bool) :
    (create config clustered).Sound ⟨[], fun _ => none⟩ where
  run := ⟨.initial, .start, .refl _⟩
  numbered := fun _ member => (List.not_mem_nil member).elim
  unclosed := fun _ member => (List.not_mem_nil member).elim
  requests := fun _ member => (List.not_mem_nil member).elim
  keys := nofun
  fresh := fun _ _ => rfl

end Engine

/-! ### Sound services -/

namespace Service

structure Sound (service : Service) (records : Records) : Prop where
  engine : service.engine.Sound records
  clients : ∀ session ∈ service.clients, ∀ execution giveUpAt,
    session = .waiting execution giveUpAt → execution.Known records

variable {service : Service} {records : Records}

namespace Sound

theorem withEngine (sound : service.Sound records) {engine : Engine} {clients : List Session}
    (soundEngine : engine.SoundAfter records) (kept : ∀ session ∈ clients,
      session ∈ service.clients ∨ session.isOver = true) :
    ∃ later, Sound ⟨engine, clients⟩ later := by
  obtain ⟨later, within, soundLater⟩ := soundEngine
  refine ⟨later, soundLater, ?_⟩
  rintro session member execution giveUpAt rfl
  rcases kept _ member with before | ended
  · exact (sound.clients _ before execution giveUpAt rfl).mono within
  · cases ended

theorem withProgress (sound : service.Sound records) {outcome : Engine × Progress}
    {clients : List Session} (giveUpAt : Nat) (progressed : Engine.Progressed records outcome)
    (kept : ∀ session ∈ clients,
      session ∈ service.clients ∨ session = .ofProgress giveUpAt outcome.2) :
    ∃ later, Sound ⟨outcome.1, clients⟩ later := by
  obtain ⟨later, within, soundLater, known⟩ := progressed
  refine ⟨later, soundLater, ?_⟩
  rintro session member execution moment rfl
  rcases kept _ member with before | now
  · exact (sound.clients _ before execution moment rfl).mono within
  · cases waits : outcome.2 with
    | finished reply =>
        rw [waits] at now
        cases now
    | waiting other =>
        rw [waits] at now
        cases now
        exact known _ waits

theorem execution (sound : service.Sound records) {client : Nat} {execution : Execution}
    {giveUpAt : Nat} (waits : service.clients[client]? = some (.waiting execution giveUpAt)) :
    execution.Known records :=
  sound.clients _ (List.mem_of_getElem? waits) execution giveUpAt rfl

theorem after (sound : service.Sound records) {action : Action}
    (permitted : service.permits action = true) :
    ∃ later, (service.after action).Sound later := by
  cases action with
  | command arguments giveUpAt =>
      refine sound.withProgress giveUpAt (sound.engine.begin arguments) fun session member => ?_
      exact (List.mem_append.mp member).imp_right List.mem_singleton.mp
  | resume client =>
      obtain ⟨execution, giveUpAt, result, waits, returned⟩ := resumes_of_permitted permitted
      rw [Service.after, clients_resume waits returned]
      exact sound.withProgress giveUpAt (sound.engine.resume (sound.execution waits) result)
        fun session member => List.mem_or_eq_of_mem_set member
  | expire client =>
      refine sound.withEngine sound.engine.after fun session member => ?_
      rcases List.mem_or_eq_of_mem_set member with before | rfl
      · exact Or.inl before
      · exact Or.inr rfl
  | abandon client =>
      refine sound.withEngine sound.engine.after fun session member => ?_
      rcases List.mem_or_eq_of_mem_set member with before | rfl
      · exact Or.inl before
      · exact Or.inr rfl
  | work event =>
      obtain ⟨works, allowed⟩ := Bool.and_eq_true_iff.mp permitted
      exact sound.withEngine (sound.engine.work works allowed) fun session => Or.inl
  | reorder turns calls =>
      have alike : service.engine.dispatcher.Alike
          { service.engine.dispatcher with turns := turns, calls := calls } := ⟨rfl, rfl, rfl⟩
      exact sound.withEngine (sound.engine.withDispatcher alike rfl).after fun session => Or.inl
  | host action => exact sound.withEngine (sound.engine.byHost action) fun session => Or.inl

end Sound

/-- Every service is sound that a store which started empty comes to. -/
theorem Run.sound {config : Config} {clustered : Bool} {history : History}
    (run : Run (.create config clustered) history service) : ∃ records, service.Sound records := by
  induction run with
  | start =>
      exact ⟨_, Engine.sound_create config clustered,
        fun _ member => (List.not_mem_nil member).elim⟩
  | step run action permitted ih =>
      obtain ⟨records, sound⟩ := ih
      exact sound.after permitted

end Service

end InferenceStore
