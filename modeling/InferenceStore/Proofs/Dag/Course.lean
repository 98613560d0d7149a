import InferenceStore.Engine.Execution

/-
The course of a graph, told apart from any store. Each operation is told with the names that were
bound when its turn came, the run it asked for, what it got, and its reply. Nothing but the first
names and the results of runs goes into a course; a store adds only when the operations run.
-/

namespace InferenceStore

structure Call where
  target : Target
  inputs : List Tensor
  result : Outcome (List Tensor)

structure Deed where
  op : Op
  /-- The names that were bound when its turn came. -/
  bound : Context
  call : Option Call
  reply : Reply

namespace Deed

def result? (deed : Deed) : Option (Outcome (List Tensor)) := deed.call.map Call.result

def asked? (deed : Deed) : Option (Target × List Tensor × Nat) :=
  deed.call.map fun call => (call.target, call.inputs, deed.op.outputs.length)

theorem filterMap_of_quiet {deeds : List Deed} (quiet : ∀ deed ∈ deeds, deed.call = none) :
    deeds.filterMap result? = [] ∧ deeds.filterMap asked? = [] := by
  constructor
  · apply List.filterMap_eq_nil_iff.mpr
    intro deed member
    rw [result?, quiet deed member, Option.map_none]
  · apply List.filterMap_eq_nil_iff.mpr
    intro deed member
    rw [asked?, quiet deed member, Option.map_none]

end Deed

/-- Operations that follow each other from some bound names to others. A request that expires is
told by no deed: it ends the graph. -/
inductive Course : Context → List Deed → Context → Prop
  | nil (context : Context) : Course context [] context
  | done {op : Op} {context bound final : Context} {reply : Reply} {deeds : List Deed}
      (step : op.step context = .done bound reply) (rest : Course bound deeds final) :
      Course context (⟨op, context, none, reply⟩ :: deeds) final
  | returned {op : Op} {context final : Context} {target : Target} {inputs tensors : List Tensor}
      {outputs : List String} {deeds : List Deed}
      (step : op.step context = .request target inputs outputs)
      (rest : Course (context.insertAll outputs tensors) deeds final) :
      Course context (⟨op, context, some ⟨target, inputs, .ok tensors⟩, .okay⟩ :: deeds) final
  | failed {op : Op} {context final : Context} {target : Target} {inputs : List Tensor}
      {outputs : List String} {cause : Error} {deeds : List Deed}
      (step : op.step context = .request target inputs outputs) (inTime : cause ≠ .timedOut)
      (rest : Course context deeds final) :
      Course context (⟨op, context, some ⟨target, inputs, .error cause⟩, .error cause⟩ :: deeds)
        final

/-! ### Operations -/

namespace Reply

/-- Nothing came of the operation: it failed, or could not run. -/
def isFailed : Reply → Bool
  | .error _ => true
  | .status text => text == "NA"
  | _ => false

theorem isFailed_iff {reply : Reply} :
    reply.isFailed = true ↔ (∃ cause, reply = .error cause) ∨ reply = .notAvailable := by
  cases reply <;> simp [isFailed, notAvailable]

theorem format_reply (format : Command.TensorFormat) (tensor : Tensor) :
    (∃ items, format.reply tensor = .array items) ∨ ∃ data, format.reply tensor = .bulk data := by
  unfold Command.TensorFormat.reply
  split
  · exact Or.inl ⟨_, rfl⟩
  · split
    · exact Or.inr ⟨_, rfl⟩
    · split <;> exact Or.inl ⟨_, rfl⟩

end Reply

namespace Context

theorem collect?_eq_none {context : Context} {names : List String} :
    context.collect? names = none ↔ ∃ name ∈ names, context.get? name = none := by
  unfold collect?
  induction names with
  | nil => simp
  | cons name rest ih =>
      rw [List.mapM_cons]
      cases found : context.get? name with
      | none => simp [found]
      | some tensor =>
          cases others : rest.mapM context.get? with
          | none =>
              obtain ⟨other, member, unbound⟩ := ih.mp others
              simp only [Option.bind_eq_bind, Option.bind_some, Option.bind_none, true_iff]
              exact ⟨other, List.mem_cons_of_mem _ member, unbound⟩
          | some tensors =>
              have bound := mt ih.mpr (by rw [others]; nofun)
              simp only [Option.bind_eq_bind, Option.bind_some, Option.pure_def, reduceCtorEq,
                false_iff]
              rintro ⟨other, member, unbound⟩
              rcases List.mem_cons.mp member with same | inRest
              · rw [same, found] at unbound
                cases unbound
              · exact bound ⟨other, inRest, unbound⟩

theorem insertAll_cons (context : Context) (name : String) (names : List String) (tensor : Tensor)
    (tensors : List Tensor) :
    context.insertAll (name :: names) (tensor :: tensors) =
      (context.insert name tensor).insertAll names tensors := rfl

theorem isSome_insert {context : Context} {name : String}
    (bound : (context.get? name).isSome = true) (other : String) (tensor : Tensor) :
    ((context.insert other tensor).get? name).isSome = true := by
  rw [get?_insert]
  split
  · rfl
  · exact bound

theorem isSome_insertAll {context : Context} {name : String}
    (bound : (context.get? name).isSome = true) (names : List String) (tensors : List Tensor) :
    ((context.insertAll names tensors).get? name).isSome = true := by
  induction names generalizing context tensors with
  | nil => exact bound
  | cons other rest ih =>
      cases tensors with
      | nil => exact bound
      | cons tensor others => exact ih (isSome_insert bound other tensor) others

theorem isSome_of_insertAll {context : Context} {name : String} {names : List String}
    {tensors : List Tensor}
    (bound : ((context.insertAll names tensors).get? name).isSome = true) :
    (context.get? name).isSome = true ∨ name ∈ names := by
  induction names generalizing context tensors with
  | nil => exact Or.inl bound
  | cons other rest ih =>
      cases tensors with
      | nil => exact Or.inl bound
      | cons tensor others =>
          have later : (((context.insert other tensor).insertAll rest others).get? name).isSome =
              true := bound
          rcases ih later with before | inRest
          · rw [get?_insert] at before
            split at before
            · rename_i same
              exact Or.inr (same ▸ List.mem_cons_self ..)
            · exact Or.inl before
          · exact Or.inr (List.mem_cons_of_mem _ inRest)

theorem insertAll_binds {name : String} {names : List String} {tensors : List Tensor}
    (context : Context) (enough : tensors.length = names.length) (member : name ∈ names) :
    ((context.insertAll names tensors).get? name).isSome = true := by
  induction names generalizing context tensors with
  | nil => cases member
  | cons other rest ih =>
      cases tensors with
      | nil => cases enough
      | cons tensor others =>
          rw [insertAll_cons]
          rcases List.mem_cons.mp member with same | inRest
          · refine isSome_insertAll ?_ rest others
            rw [get?_insert, if_pos same, Option.isSome_some]
          · exact ih (context.insert other tensor) (Nat.succ.inj enough) inRest

theorem insertAll_congr {context other : Context} {name : String} {names : List String}
    {tensors : List Tensor} (enough : tensors.length = names.length)
    (same : name ∈ names ∨ context.get? name = other.get? name) :
    (context.insertAll names tensors).get? name = (other.insertAll names tensors).get? name := by
  induction names generalizing context other tensors with
  | nil => exact same.resolve_left List.not_mem_nil
  | cons first rest ih =>
      cases tensors with
      | nil => cases enough
      | cons tensor others =>
          rw [insertAll_cons, insertAll_cons]
          apply ih (Nat.succ.inj enough)
          rw [get?_insert, get?_insert]
          by_cases here : name = first
          · rw [if_pos here, if_pos here]
            exact Or.inr rfl
          · rw [if_neg here, if_neg here]
            exact same.imp_left fun member => (List.mem_cons.mp member).resolve_left here

end Context

namespace Op

variable {op : Op} {context bound : Context} {reply : Reply}

def target? : Op → Option Target
  | .model run => some (.model run.model)
  | .script run => some (.script run.invocation)
  | _ => none

theorem step_of_target {target : Target} (runs : op.target? = some target) :
    op.step context = runStep context target op.inputs op.outputs := by
  cases op with
  | model run =>
      cases runs
      rfl
  | script run =>
      cases runs
      rfl
  | tensorSet set => cases runs
  | tensorGet get => cases runs

theorem runStep_eq_request {target : Target} {inputs outputs : List String} {asked : Target}
    {tensors : List Tensor} {names : List String} :
    runStep context target inputs outputs = .request asked tensors names ↔
      target = asked ∧ context.collect? inputs = some tensors ∧ outputs = names := by
  unfold runStep
  cases context.collect? inputs <;> simp

/-- An operation asks for a run just when it is one and all its inputs are bound. -/
theorem step_eq_request {target : Target} {inputs : List Tensor} {outputs : List String} :
    op.step context = .request target inputs outputs ↔
      op.target? = some target ∧ context.collect? op.inputs = some inputs ∧
        op.outputs = outputs := by
  cases runs : op.target? with
  | some asked =>
      rw [step_of_target runs, runStep_eq_request, Option.some.injEq]
  | none =>
      cases op with
      | tensorSet set => simp [step]
      | tensorGet get =>
          simp only [step, reduceCtorEq, false_and, iff_false]
          split <;> nofun
      | model run => cases runs
      | script run => cases runs

/-- An operation is done at once if an input is unbound, or if it is no run. In the second case
something came of it, and its outputs are bound. -/
theorem done_cases (step : op.step context = .done bound reply) :
    (reply = .notAvailable ∧ bound = context ∧ ∃ name ∈ op.inputs, context.get? name = none) ∨
      (reply.isFailed = false ∧ reply ≠ .timedOut ∧ op.target? = none ∧
        (∀ name ∈ op.inputs, (context.get? name).isSome = true) ∧
        ∃ tensors, tensors.length = op.outputs.length ∧
          bound = context.insertAll op.outputs tensors) := by
  cases runs : op.target? with
  | some target =>
      rw [step_of_target runs, runStep] at step
      split at step
      · rename_i missing
        cases step
        exact Or.inl ⟨rfl, rfl, Context.collect?_eq_none.mp missing⟩
      · cases step
  | none =>
      cases op with
      | model run => cases runs
      | script run => cases runs
      | tensorSet set =>
          cases step
          refine Or.inr ⟨rfl, by simp [Reply.okay, Reply.timedOut], rfl, ?_, ?_⟩
          · exact fun name member => (List.not_mem_nil member).elim
          · exact ⟨[set.tensor], rfl, rfl⟩
      | tensorGet get =>
          simp only [Op.step] at step
          split at step
          · rename_i tensor found
            cases step
            refine Or.inr ⟨?_, ?_, rfl, ?_, [], rfl, rfl⟩
            · rcases Reply.format_reply get.format tensor with ⟨_, same⟩ | ⟨_, same⟩ <;>
                rw [same] <;> rfl
            · rcases Reply.format_reply get.format tensor with ⟨_, same⟩ | ⟨_, same⟩ <;>
                rw [same] <;> nofun
            · intro name member
              rw [List.mem_singleton.mp member, found, Option.isSome_some]
          · rename_i missing
            cases step
            exact Or.inl ⟨rfl, rfl, get.key, List.mem_singleton.mpr rfl, missing⟩

end Op

/-! ### Courses -/

namespace Course

variable {context middle final other : Context} {deeds more : List Deed}

theorem append (front : Course context deeds middle) (back : Course middle more final) :
    Course context (deeds ++ more) final := by
  induction front with
  | nil => exact back
  | done step _ ih => exact .done step (ih back)
  | returned step _ ih => exact .returned step (ih back)
  | failed step inTime _ ih => exact .failed step inTime (ih back)

theorem final_unique (first : Course context deeds final) (second : Course context deeds other) :
    final = other := by
  induction first with
  | nil =>
      cases second
      rfl
  | done step _ ih =>
      cases second with
      | done step' rest =>
          rw [step] at step'
          cases step'
          exact ih rest
  | returned step _ ih =>
      cases second with
      | returned step' rest =>
          rw [step] at step'
          cases step'
          exact ih rest
  | failed step _ _ ih =>
      cases second with
      | failed _ _ rest => exact ih rest

theorem reply_ne_timedOut (course : Course context deeds final) {deed : Deed}
    (member : deed ∈ deeds) : deed.reply ≠ .timedOut := by
  induction course with
  | nil => cases member
  | done step _ ih =>
      rcases List.mem_cons.mp member with same | inRest
      · subst same
        rcases Op.done_cases step with ⟨same, _⟩ | ⟨_, apart, _⟩
        · simp [same, Reply.notAvailable, Reply.timedOut]
        · exact apart
      · exact ih inRest
  | returned _ _ ih =>
      rcases List.mem_cons.mp member with same | inRest
      · subst same
        simp [Reply.okay, Reply.timedOut]
      · exact ih inRest
  | failed _ _ _ ih =>
      rcases List.mem_cons.mp member with same | inRest
      · subst same
        nofun
      · exact ih inRest

end Course

/-! ### Turns -/

namespace Engine

def ask (engine : Engine) (dag : Dag) (deadline : Option Nat) (context : Context)
    (replies : List Reply) (target : Target) (inputs : List Tensor) (outputs : List String)
    (rest : List Op) : Engine × Progress :=
  let (submitted, id) := engine.submit target inputs outputs.length deadline
  (submitted, .waiting ⟨dag, deadline, context, replies, id, outputs, rest⟩)

/-- What operations come to when they run until one of them waits: they are all told, and the
graph is over, or those before the one that waits are. -/
inductive Turn (engine : Engine) (dag : Dag) (deadline : Option Nat) (context : Context)
    (replies : List Reply) (ops : List Op) : List Deed → Context → Engine × Progress → Prop
  | ended {deeds : List Deed} {final : Context} (course : Course context deeds final)
      (told : ops = deeds.map Deed.op) :
      Turn engine dag deadline context replies ops deeds final
        (engine.conclude dag final (replies ++ deeds.map Deed.reply))
  | asks {deeds : List Deed} {bound : Context} {op : Op} {rest : List Op} {target : Target}
      {inputs : List Tensor} (course : Course context deeds bound)
      (told : ops = deeds.map Deed.op ++ op :: rest)
      (step : op.step bound = .request target inputs op.outputs) :
      Turn engine dag deadline context replies ops deeds bound
        (engine.ask dag deadline bound (replies ++ deeds.map Deed.reply) target inputs op.outputs
          rest)

namespace Turn

variable {engine : Engine} {dag : Dag} {deadline : Option Nat} {context bound final : Context}
  {replies : List Reply} {ops : List Op} {deeds : List Deed} {outcome : Engine × Progress}

theorem cons {deed : Deed} (first : Course context [deed] bound)
    (turn : Turn engine dag deadline bound (replies ++ [deed.reply]) ops deeds final outcome) :
    Turn engine dag deadline context replies (deed.op :: ops) (deed :: deeds) final outcome := by
  cases turn with
  | ended course told =>
      rw [List.append_assoc]
      exact .ended (first.append course) (congrArg (deed.op :: ·) told)
  | asks course told step =>
      rw [List.append_assoc]
      exact .asks (first.append course) (congrArg (deed.op :: ·) told) step

end Turn

theorem runOps_turn (engine : Engine) (dag : Dag) (deadline : Option Nat) (context : Context)
    (replies : List Reply) (ops : List Op) :
    ∃ deeds final, (∀ deed ∈ deeds, deed.call = none) ∧
      Turn engine dag deadline context replies ops deeds final
        (engine.runOps dag deadline context replies ops) := by
  induction ops generalizing context replies with
  | nil =>
      have ended : Turn engine dag deadline context replies [] [] context
          (engine.conclude dag context (replies ++ [])) := .ended (.nil context) rfl
      rw [List.append_nil] at ended
      exact ⟨[], context, fun _ member => (List.not_mem_nil member).elim, ended⟩
  | cons op rest ih =>
      cases step : op.step context with
      | done bound reply =>
          obtain ⟨deeds, final, quiet, turn⟩ := ih bound (replies ++ [reply])
          have runs : engine.runOps dag deadline context replies (op :: rest) =
              engine.runOps dag deadline bound (replies ++ [reply]) rest := by
            simp only [runOps, step]
          rw [runs]
          refine ⟨⟨op, context, none, reply⟩ :: deeds, final, ?_, .cons (.done step (.nil _)) turn⟩
          intro deed member
          rcases List.mem_cons.mp member with same | inRest
          · rw [same]
          · exact quiet deed inRest
      | request target inputs outputs =>
          obtain ⟨_, _, same⟩ := Op.step_eq_request.mp step
          subst same
          have asks : Turn engine dag deadline context replies (op :: rest) [] context
              (engine.ask dag deadline context (replies ++ []) target inputs op.outputs rest) :=
            .asks (.nil context) rfl step
          have runs : engine.runOps dag deadline context replies (op :: rest) =
              engine.ask dag deadline context replies target inputs op.outputs rest := by
            simp only [runOps, step, ask]
          rw [List.append_nil] at asks
          rw [runs]
          exact ⟨[], context, fun _ member => (List.not_mem_nil member).elim, asks⟩

/-- A graph that gets a result other than expiry goes on with the deed of the operation that
waited for it. -/
theorem resume_turn (engine : Engine) (execution : Execution) {op : Op} {target : Target}
    {inputs : List Tensor} {result : Outcome (List Tensor)}
    (step : op.step execution.context = .request target inputs execution.outputs)
    (inTime : result ≠ .error .timedOut) :
    ∃ deed deeds final, deed.op = op ∧ deed.call = some ⟨target, inputs, result⟩ ∧
      (∀ deed ∈ deeds, deed.call = none) ∧
      Turn engine execution.dag execution.deadline execution.context execution.replies
        (op :: execution.rest) (deed :: deeds) final (engine.resume execution result) := by
  cases result with
  | ok tensors =>
      obtain ⟨deeds, final, quiet, turn⟩ := engine.runOps_turn execution.dag execution.deadline
        (execution.context.insertAll execution.outputs tensors) (execution.replies ++ [.okay])
        execution.rest
      exact ⟨_, deeds, final, rfl, rfl, quiet, .cons (.returned step (.nil _)) turn⟩
  | error cause =>
      have waited : cause ≠ .timedOut := fun same => inTime (congrArg Except.error same)
      obtain ⟨deeds, final, quiet, turn⟩ := engine.runOps_turn execution.dag execution.deadline
        execution.context (execution.replies ++ [.error cause]) execution.rest
      have resumes : engine.resume execution (.error cause) =
          engine.runOps execution.dag execution.deadline execution.context
            (execution.replies ++ [.error cause]) execution.rest := by
        unfold resume
        cases cause <;> first | rfl | exact absurd rfl waited
      rw [resumes]
      exact ⟨_, deeds, final, rfl, rfl, quiet, .cons (.failed step waited (.nil _)) turn⟩

end Engine

end InferenceStore
