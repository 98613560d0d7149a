import InferenceStore.Proofs.Dag.Course
import InferenceStore.Proofs.Dag.Grammar
import InferenceStore.Proofs.Dag.Persist
import Mathlib.Logic.Relation

/-
How failures spread in a graph. An operation binds all its outputs or nothing came of it, and one
could not run just when a name that it reads is unbound. Every such name was to be written by an
earlier operation of which nothing came; so behind each operation that could not run there is one
that failed, and a chain of names that leads from it.
-/

namespace InferenceStore

/-- A run that succeeded gave a tensor for each output. -/
def Deed.Filled (deed : Deed) : Prop :=
  ∀ call tensors, deed.call = some call → call.result = .ok tensors →
    tensors.length = deed.op.outputs.length

namespace Context

theorem isSome_insertAll_iff {context : Context} {name : String} {names : List String}
    {tensors : List Tensor} (enough : tensors.length = names.length) :
    ((context.insertAll names tensors).get? name).isSome = true ↔
      (context.get? name).isSome = true ∨ name ∈ names := by
  constructor
  · exact isSome_of_insertAll
  · rintro (bound | member)
    · exact isSome_insertAll bound names tensors
    · exact insertAll_binds context enough member

theorem isSome_of_collect? {context : Context} {names : List String} {tensors : List Tensor}
    (collected : context.collect? names = some tensors) :
    ∀ name ∈ names, (context.get? name).isSome = true := by
  intro name member
  rw [Option.isSome_iff_ne_none]
  intro unbound
  rw [collect?_eq_none.mpr ⟨name, member, unbound⟩] at collected
  cases collected

end Context

namespace Course

variable {context middle final : Context} {deeds front back : List Deed} {deed : Deed}
  {name : String}

theorem uncons (course : Course context (deed :: back) final) :
    deed.bound = context ∧ ∃ middle, Course context [deed] middle ∧ Course middle back final := by
  cases course with
  | done step rest => exact ⟨rfl, _, .done step (.nil _), rest⟩
  | returned step rest => exact ⟨rfl, _, .returned step (.nil _), rest⟩
  | failed step inTime rest => exact ⟨rfl, _, .failed step inTime (.nil _), rest⟩

theorem split (course : Course context (front ++ back) final) :
    ∃ middle, Course context front middle ∧ Course middle back final := by
  induction front generalizing context with
  | nil => exact ⟨context, .nil context, course⟩
  | cons first rest ih =>
      obtain ⟨_, next, here, onward⟩ := uncons course
      obtain ⟨middle, before, behind⟩ := ih onward
      exact ⟨middle, here.append before, behind⟩

theorem deed_cases (course : Course context [deed] middle) :
    (deed.reply = .notAvailable ∧ deed.call = none ∧
        ∃ name ∈ deed.op.inputs, context.get? name = none) ∨
      (deed.reply ≠ .notAvailable ∧ deed.call.isSome = deed.op.target?.isSome ∧
        ∀ name ∈ deed.op.inputs, (context.get? name).isSome = true) := by
  cases course with
  | done step rest =>
      rcases Op.done_cases step with ⟨reply, _, missing⟩ | ⟨came, _, quiet, inputs, _⟩
      · exact Or.inl ⟨reply, rfl, missing⟩
      · refine Or.inr ⟨?_, by rw [quiet]; rfl, inputs⟩
        rintro rfl
        cases came
  | returned step rest =>
      obtain ⟨runs, collected, _⟩ := Op.step_eq_request.mp step
      refine Or.inr ⟨?_, by rw [runs]; rfl, Context.isSome_of_collect? collected⟩
      simp [Reply.okay, Reply.notAvailable]
  | failed step inTime rest =>
      obtain ⟨runs, collected, _⟩ := Op.step_eq_request.mp step
      refine Or.inr ⟨?_, by rw [runs]; rfl, Context.isSome_of_collect? collected⟩
      intro same
      cases same

theorem binds_one (course : Course context [deed] middle) (filled : deed.Filled) :
    (middle.get? name).isSome = true ↔ (context.get? name).isSome = true ∨
      name ∈ deed.op.outputs ∧ deed.reply.isFailed = false := by
  cases course with
  | done step rest =>
      cases rest
      rcases Op.done_cases step with ⟨reply, same, _⟩ | ⟨came, _, _, _, tensors, enough, same⟩
      · rw [same, reply]
        simp [Reply.isFailed, Reply.notAvailable]
      · rw [same, Context.isSome_insertAll_iff enough, came]
        simp
  | @returned op _ _ _ _ tensors _ _ step rest =>
      cases rest
      obtain ⟨_, _, rfl⟩ := Op.step_eq_request.mp step
      rw [Context.isSome_insertAll_iff (filled _ tensors rfl rfl)]
      simp [Reply.isFailed, Reply.okay]
  | failed step inTime rest =>
      cases rest
      simp [Reply.isFailed]

theorem binds (course : Course context deeds final) (filled : ∀ deed ∈ deeds, deed.Filled) :
    (final.get? name).isSome = true ↔ (context.get? name).isSome = true ∨
      ∃ deed ∈ deeds, name ∈ deed.op.outputs ∧ deed.reply.isFailed = false := by
  induction deeds generalizing context with
  | nil =>
      cases course
      simp
  | cons first rest ih =>
      obtain ⟨here, others⟩ := List.forall_mem_cons.mp filled
      obtain ⟨_, next, one, onward⟩ := uncons course
      rw [ih onward others, binds_one one here, List.exists_mem_cons_iff, or_assoc]

theorem at_turn (course : Course context deeds final) {index : Nat}
    (placed : deeds[index]? = some deed) :
    Course context (deeds.take index) deed.bound ∧ ∃ after, Course deed.bound [deed] after := by
  obtain ⟨within, same⟩ := List.getElem?_eq_some_iff.mp placed
  have parts : deeds = deeds.take index ++ deed :: deeds.drop (index + 1) := by
    rw [← same, ← List.drop_eq_getElem_cons within, List.take_append_drop]
  rw [parts] at course
  obtain ⟨middle, before, behind⟩ := split course
  obtain ⟨rfl, after, here, _⟩ := uncons behind
  exact ⟨before, after, here⟩

theorem bound_at (course : Course context deeds final) (filled : ∀ deed ∈ deeds, deed.Filled)
    {index : Nat} (placed : deeds[index]? = some deed) :
    (deed.bound.get? name).isSome = true ↔ (context.get? name).isSome = true ∨
      ∃ earlier producer, earlier < index ∧ deeds[earlier]? = some producer ∧
        name ∈ producer.op.outputs ∧ producer.reply.isFailed = false := by
  have before := (course.at_turn placed).1
  rw [binds before fun each member => filled each (List.mem_of_mem_take member)]
  refine or_congr_right ⟨?_, ?_⟩
  · rintro ⟨producer, member, came⟩
    obtain ⟨earlier, there⟩ := List.mem_iff_getElem?.mp member
    rw [List.getElem?_take] at there
    split at there
    · rename_i early
      exact ⟨earlier, producer, early, there, came⟩
    · cases there
  · rintro ⟨earlier, producer, early, there, came⟩
    refine ⟨producer, List.mem_of_getElem? (i := earlier) ?_, came⟩
    rw [List.getElem?_take_of_lt early]
    exact there

end Course

/-! ### Replies -/

/-- An operation reads a name that an earlier one, of which nothing came, was to write. -/
def Starves (ops : List Op) (replies : List Reply) (earlier later : Nat) : Prop :=
  earlier < later ∧ ∃ producer consumer reply, ops[earlier]? = some producer ∧
    ops[later]? = some consumer ∧ replies[earlier]? = some reply ∧ reply.isFailed = true ∧
      ∃ name ∈ producer.outputs, name ∈ consumer.inputs

/-- The name was loaded, or something came of an earlier operation that writes it. -/
def Provided (dag : Dag) (replies : List Reply) (index : Nat) (name : String) : Prop :=
  name ∈ dag.load ∨ ∃ earlier producer reply, earlier < index ∧
    dag.ops[earlier]? = some producer ∧ replies[earlier]? = some reply ∧
      reply.isFailed = false ∧ name ∈ producer.outputs

/-- Failures of a graph travel along its names only. -/
structure FailuresFollow (dag : Dag) (deeds : List Deed) (replies : List Reply) : Prop where
  starved : ∀ index < dag.ops.length, replies[index]? = some .notAvailable →
    ∃ earlier, Starves dag.ops replies earlier index
  traced : ∀ index < dag.ops.length, replies[index]? = some .notAvailable →
    ∃ origin cause, replies[origin]? = some (.error cause) ∧
      Relation.TransGen (Starves dag.ops replies) origin index
  executed : ∀ index deed, deeds[index]? = some deed →
    (∀ name ∈ deed.op.inputs, Provided dag replies index name) →
      replies[index]? ≠ some .notAvailable ∧ deed.call.isSome = deed.op.target?.isSome
  clean : (∀ index < dag.ops.length, ∀ cause, replies[index]? ≠ some (.error cause)) →
    ∀ reply ∈ replies, reply ≠ .notAvailable ∧ reply ≠ .error (.dag .persistUnbound)

section Replies

variable {flavor : DagFlavor} {keyspace before : Keyspace} {dag : Dag} {loaded final : Context}
  {deeds : List Deed} {failures : List Error} {index : Nat} {deed : Deed}

/-- A chain of names leads back to an operation that failed. -/
theorem exists_origin {ops : List Op} {replies : List Reply}
    (starved : ∀ index < ops.length, replies[index]? = some .notAvailable →
      ∃ earlier, Starves ops replies earlier index)
    (within : index < ops.length) (reply : replies[index]? = some .notAvailable) :
    ∃ origin cause, replies[origin]? = some (.error cause) ∧
      Relation.TransGen (Starves ops replies) origin index := by
  induction index using Nat.strongRecOn with
  | ind index ih =>
      obtain ⟨earlier, starves⟩ := starved index within reply
      have known := starves
      obtain ⟨early, _, _, own, _, _, found, failed, _⟩ := known
      rcases Reply.isFailed_iff.mp failed with ⟨cause, rfl⟩ | rfl
      · exact ⟨earlier, cause, found, .single starves⟩
      · obtain ⟨origin, cause, error, chain⟩ :=
          ih earlier early (Nat.lt_trans early within) found
        exact ⟨origin, cause, error, chain.tail starves⟩

theorem lt_of_chain {ops : List Op} {replies : List Reply} {origin index : Nat}
    (chain : Relation.TransGen (Starves ops replies) origin index) : origin < index := by
  induction chain with
  | single starves => exact starves.1
  | tail _ starves before => exact Nat.lt_trans before starves.1

theorem reply_at (placed : deeds[index]? = some deed) :
    (deeds.map Deed.reply ++ failures.map Reply.error)[index]? = some deed.reply := by
  have within := (List.getElem?_eq_some_iff.mp placed).1
  rw [List.getElem?_append_left (by rw [List.length_map]; exact within), List.getElem?_map, placed,
    Option.map_some]

variable (course : Course loaded deeds final) (filled : ∀ deed ∈ deeds, deed.Filled)
  (ops : dag.ops = deeds.map Deed.op)
  (loads : ∀ name, (loaded.get? name).isSome = true ↔ name ∈ dag.load)

include course filled ops loads

theorem provided_iff (placed : deeds[index]? = some deed) (name : String) :
    (deed.bound.get? name).isSome = true ↔
      Provided dag (deeds.map Deed.reply ++ failures.map Reply.error) index name := by
  rw [course.bound_at filled placed, loads]
  refine or_congr_right ⟨?_, ?_⟩
  · rintro ⟨earlier, producer, early, there, writes, came⟩
    refine ⟨earlier, producer.op, producer.reply, early, ?_, reply_at there, came, writes⟩
    rw [ops, List.getElem?_map, there, Option.map_some]
  · rintro ⟨earlier, op, reply, early, there, replied, came, writes⟩
    rw [ops, List.getElem?_map] at there
    obtain ⟨producer, found, rfl⟩ := Option.map_eq_some_iff.mp there
    rw [reply_at found] at replied
    cases replied
    exact ⟨earlier, producer, early, found, writes, came⟩

theorem exists_starves (ordered : Dag.Ordered dag.load dag.ops)
    (placed : deeds[index]? = some deed) (reply : deed.reply = .notAvailable) :
    ∃ earlier,
      Starves dag.ops (deeds.map Deed.reply ++ failures.map Reply.error) earlier index := by
  obtain ⟨_, after, here⟩ := course.at_turn placed
  rcases Course.deed_cases here with ⟨_, _, name, reads, unbound⟩ | ⟨available, _⟩
  · have located : dag.ops[index]? = some deed.op := by
      rw [ops, List.getElem?_map, placed, Option.map_some]
    have absent : ¬ (deed.bound.get? name).isSome = true := by simp [unbound]
    rw [course.bound_at filled placed, not_or, loads] at absent
    rcases ordered index deed.op located name reads with loading | ⟨earlier, producer, early, rest⟩
    · exact absurd loading absent.1
    · obtain ⟨there, writesName⟩ := rest
      have known := there
      rw [ops, List.getElem?_map] at there
      obtain ⟨wrote, found, rfl⟩ := Option.map_eq_some_iff.mp there
      have failed : wrote.reply.isFailed = true := by
        by_contra came
        exact absent.2 ⟨earlier, wrote, early, found, writesName, Bool.eq_false_iff.mpr came⟩
      exact ⟨earlier, early, wrote.op, deed.op, wrote.reply, known, located, reply_at found, failed,
        name, writesName, reads⟩
  · exact absurd reply available

theorem starved (ordered : Dag.Ordered dag.load dag.ops) (within : index < dag.ops.length)
    (reply : (deeds.map Deed.reply ++ failures.map Reply.error)[index]? = some .notAvailable) :
    ∃ earlier,
      Starves dag.ops (deeds.map Deed.reply ++ failures.map Reply.error) earlier index := by
  rw [ops, List.length_map] at within
  have placed := List.getElem?_eq_getElem within
  rw [reply_at placed] at reply
  exact exists_starves course filled ops loads ordered placed (Option.some.inj reply)

theorem came_of_clean (ordered : Dag.Ordered dag.load dag.ops)
    (clean : ∀ index < dag.ops.length, ∀ cause,
      (deeds.map Deed.reply ++ failures.map Reply.error)[index]? ≠ some (.error cause)) :
    ∀ deed ∈ deeds, deed.reply.isFailed = false := by
  intro deed member
  obtain ⟨index, placed⟩ := List.mem_iff_getElem?.mp member
  have within : index < dag.ops.length := by
    rw [ops, List.length_map]
    exact (List.getElem?_eq_some_iff.mp placed).1
  by_contra failed
  have own : (deeds.map Deed.reply ++ failures.map Reply.error)[index]? = some deed.reply :=
    reply_at placed
  rcases Reply.isFailed_iff.mp (eq_true_of_ne_false failed) with ⟨cause, error⟩ | skipped
  · rw [error] at own
    exact clean index within cause own
  · rw [skipped] at own
    obtain ⟨origin, cause, error, chain⟩ := exists_origin
      (fun index => starved course filled ops loads ordered) within own
    exact clean origin (Nat.lt_trans (lt_of_chain chain) within) cause error

theorem failures_follow (read : Dag.Read flavor keyspace dag)
    (faults : failures = dag.persist.filterMap (final.fault? before)) :
    FailuresFollow dag deeds (deeds.map Deed.reply ++ failures.map Reply.error) where
  starved := fun index => starved course filled ops loads read.ordered
  traced := fun index within => exists_origin
    (fun index => starved course filled ops loads read.ordered) within
  executed := by
    intro index deed placed provided
    obtain ⟨_, after, here⟩ := course.at_turn placed
    rw [reply_at placed]
    rcases Course.deed_cases here with ⟨_, _, name, reads, unbound⟩ | ⟨available, called, _⟩
    · have bound := (provided_iff course filled ops loads placed name).mpr (provided name reads)
      rw [unbound] at bound
      cases bound
    · exact ⟨fun same => available (Option.some.inj same), called⟩
  clean := by
    intro clean
    have came := came_of_clean course filled ops loads read.ordered clean
    refine List.forall_mem_append.mpr ⟨?_, ?_⟩
    · intro reply member
      obtain ⟨deed, known, rfl⟩ := List.mem_map.mp member
      constructor <;>
      · intro same
        have went := came deed known
        rw [same] at went
        cases went
    · intro reply member
      obtain ⟨cause, failed, rfl⟩ := List.mem_map.mp member
      refine ⟨nofun, ?_⟩
      rintro ⟨rfl⟩
      rw [faults] at failed
      obtain ⟨name, persists, fault⟩ := List.mem_filterMap.mp failed
      have bound : (final.get? name).isSome = true := by
        rw [course.binds filled, loads]
        rcases read.persisted name persists with loading | ⟨op, among, writes⟩
        · exact Or.inl loading
        · rw [ops] at among
          obtain ⟨deed, known, rfl⟩ := List.mem_map.mp among
          exact Or.inr ⟨deed, known, writes, came deed known⟩
      cases (Context.refused_of_fault bound fault).2

end Replies

end InferenceStore
