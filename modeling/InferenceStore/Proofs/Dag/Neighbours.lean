import InferenceStore.Proofs.Dag.Dependencies
import InferenceStore.Proofs.Dag.Exchange

/-
Courses with two neighbouring operations exchanged. What an operation does depends on the names
that it reads, and what it leaves behind is bound to the names that it writes. So of two operations
that are independent each does what it did, whichever comes first, whether it runs, fails or cannot
run; and all that comes behind finds the same names bound to the same tensors.
-/

namespace InferenceStore

/-- What an operation did: the run it asked for and what it got, and its reply. -/
def Deed.account (deed : Deed) : Op × Option Call × Reply := (deed.op, deed.call, deed.reply)

namespace Context

variable {context other : Context} {name : String} {names more : List String}
  {tensors others : List Tensor}

theorem collect?_congr (same : ∀ name ∈ names, context.get? name = other.get? name) :
    context.collect? names = other.collect? names := by
  unfold collect?
  induction names with
  | nil => rfl
  | cons name rest ih =>
      obtain ⟨here, behind⟩ := List.forall_mem_cons.mp same
      rw [List.mapM_cons, List.mapM_cons, here, ih behind]

theorem get?_insertAll_congr (same : context.get? name = other.get? name) (names : List String)
    (tensors : List Tensor) :
    (context.insertAll names tensors).get? name = (other.insertAll names tensors).get? name := by
  induction names generalizing context other tensors with
  | nil => exact same
  | cons first rest ih =>
      cases tensors with
      | nil => exact same
      | cons tensor behind =>
          rw [insertAll_cons, insertAll_cons]
          apply ih
          rw [get?_insert, get?_insert, same]

theorem get?_insertAll_of_absent (absent : name ∉ names) (context : Context)
    (tensors : List Tensor) : (context.insertAll names tensors).get? name = context.get? name := by
  induction names generalizing context tensors with
  | nil => rfl
  | cons first rest ih =>
      obtain ⟨apart, inRest⟩ := not_or.mp fun either => absent (List.mem_cons.mpr either)
      cases tensors with
      | nil => rfl
      | cons tensor behind => rw [insertAll_cons, ih inRest, get?_insert, if_neg apart]

theorem insertAll_nil (context : Context) (names : List String) :
    context.insertAll names [] = context := by
  cases names <;> rfl

theorem get?_insertAll_comm (apart : names.Disjoint more) (context : Context)
    (tensors others : List Tensor) (name : String) :
    ((context.insertAll names tensors).insertAll more others).get? name =
      ((context.insertAll more others).insertAll names tensors).get? name := by
  by_cases member : name ∈ names
  · have absent : name ∉ more := fun also => apart member also
    rw [get?_insertAll_of_absent absent]
    exact get?_insertAll_congr (get?_insertAll_of_absent absent context others).symm names tensors
  · rw [get?_insertAll_of_absent member (context.insertAll more others)]
    exact get?_insertAll_congr (get?_insertAll_of_absent member context tensors) more others

end Context

namespace Op

variable {op : Op} {context other bound : Context} {reply : Reply} {target : Target}
  {inputs : List Tensor} {outputs : List String}

theorem done_congr (step : op.step context = .done bound reply) :
    ∃ tensors, bound = context.insertAll op.outputs tensors ∧
      ∀ other : Context, (∀ name ∈ op.inputs, context.get? name = other.get? name) →
        op.step other = .done (other.insertAll op.outputs tensors) reply := by
  have run {target : Target} {inputs outputs : List String}
      (step : runStep context target inputs outputs = .done bound reply) :
      ∃ tensors, bound = context.insertAll outputs tensors ∧
        ∀ other : Context, (∀ name ∈ inputs, context.get? name = other.get? name) →
          runStep other target inputs outputs =
            .done (other.insertAll outputs tensors) reply := by
    unfold runStep at step
    split at step
    · rename_i missing
      cases step
      refine ⟨[], (Context.insertAll_nil ..).symm, fun other same => ?_⟩
      simp only [runStep, ← Context.collect?_congr same, missing, Context.insertAll_nil]
    · cases step
  cases op with
  | tensorSet set =>
      cases step
      exact ⟨[set.tensor], rfl, fun _ _ => rfl⟩
  | tensorGet get =>
      simp only [Op.step] at step
      split at step
      all_goals
        rename_i found
        cases step
        refine ⟨[], rfl, fun other same => ?_⟩
        rw [same get.key (List.mem_singleton.mpr rfl)] at found
        simp only [Op.step, found]
        rfl
  | model asked => exact run step
  | script asked => exact run step

theorem request_congr (same : ∀ name ∈ op.inputs, context.get? name = other.get? name)
    (step : op.step context = .request target inputs outputs) :
    op.step other = .request target inputs outputs := by
  obtain ⟨runs, collected, named⟩ := step_eq_request.mp step
  exact step_eq_request.mpr ⟨runs, (Context.collect?_congr same).symm.trans collected, named⟩

end Op

namespace Course

variable {context middle final other : Context} {deed first second : Deed}
  {deeds front rest : List Deed}

/-- An operation does the same wherever its inputs are the same, and writes its outputs only. -/
theorem one_congr (course : Course context [deed] middle) :
    ∃ tensors, middle = context.insertAll deed.op.outputs tensors ∧
      ∀ other : Context, (∀ name ∈ deed.op.inputs, context.get? name = other.get? name) →
        ∃ also, Course other [also] (other.insertAll deed.op.outputs tensors) ∧
          also.account = deed.account := by
  cases course with
  | done step onward =>
      cases onward
      obtain ⟨tensors, rfl, alike⟩ := Op.done_congr step
      exact ⟨tensors, rfl, fun other same => ⟨_, .done (alike other same) (.nil _), rfl⟩⟩
  | @returned op _ _ target inputs tensors outputs _ step onward =>
      cases onward
      obtain ⟨_, _, rfl⟩ := Op.step_eq_request.mp step
      refine ⟨tensors, rfl, fun other same => ?_⟩
      exact ⟨_, .returned (Op.request_congr same step) (.nil _), rfl⟩
  | @failed op _ _ target inputs outputs cause _ step inTime onward =>
      cases onward
      refine ⟨[], (Context.insertAll_nil ..).symm, fun other same => ?_⟩
      rw [Context.insertAll_nil]
      exact ⟨_, .failed (Op.request_congr same step) inTime (.nil _), rfl⟩

theorem congr (course : Course context deeds final)
    (same : ∀ name, context.get? name = other.get? name) :
    ∃ also ending, Course other also ending ∧
      also.map Deed.account = deeds.map Deed.account ∧
        ∀ name, final.get? name = ending.get? name := by
  induction deeds generalizing context other with
  | nil =>
      cases course
      exact ⟨[], other, .nil other, rfl, same⟩
  | cons deed behind ih =>
      obtain ⟨_, middle, one, onward⟩ := uncons course
      obtain ⟨tensors, rfl, alike⟩ := one_congr one
      obtain ⟨also, oneToo, account⟩ := alike other fun name _ => same name
      obtain ⟨rest, ending, onwardToo, accounts, ends⟩ :=
        ih onward fun name => Context.get?_insertAll_congr (same name) deed.op.outputs tensors
      refine ⟨also :: rest, ending, oneToo.append onwardToo, ?_, ends⟩
      rw [List.map_cons, List.map_cons, account, accounts]

/-- Each of two independent operations does what it did if the other goes first. -/
theorem two_exchanged (course : Course context [first, second] middle)
    (apart : first.op.Independent second.op) :
    ∃ former latter ending, Course context [former, latter] ending ∧
      former.account = second.account ∧ latter.account = first.account ∧
        ∀ name, middle.get? name = ending.get? name := by
  obtain ⟨_, between, one, onward⟩ := uncons course
  obtain ⟨_, behind, two, ended⟩ := uncons onward
  cases ended
  obtain ⟨tensors, rfl, firstAlike⟩ := one_congr one
  obtain ⟨others, rfl, secondAlike⟩ := one_congr two
  obtain ⟨former, goesFirst, same⟩ := secondAlike context fun name reads =>
    Context.get?_insertAll_of_absent (fun writes => apart.onward writes reads) context tensors
  obtain ⟨latter, goesSecond, sameToo⟩ :=
    firstAlike (context.insertAll second.op.outputs others) fun name reads =>
      (Context.get?_insertAll_of_absent (fun writes => apart.back writes reads) context others).symm
  exact ⟨former, latter, _, goesFirst.append goesSecond, same, sameToo,
    Context.get?_insertAll_comm apart.outputs context tensors others⟩

/-- With two independent neighbours exchanged, every operation does what it did, and in the end
all names are bound to the same tensors. -/
theorem exchanged (course : Course context (front ++ first :: second :: rest) final)
    (apart : first.op.Independent second.op) :
    ∃ deeds ending, Course context deeds ending ∧
      deeds.map Deed.account = (front ++ second :: first :: rest).map Deed.account ∧
        ∀ name, final.get? name = ending.get? name := by
  obtain ⟨start, before, onward⟩ := split course
  obtain ⟨middle, both, behind⟩ :=
    split (show Course start ([first, second] ++ rest) final from onward)
  obtain ⟨former, latter, between, bothToo, same, sameToo, bound⟩ := both.two_exchanged apart
  obtain ⟨others, ending, behindToo, accounts, ends⟩ := behind.congr bound
  refine ⟨front ++ ([former, latter] ++ others), ending,
    before.append (bothToo.append behindToo), ?_, ends⟩
  simp only [List.map_append, List.map_cons, same, sameToo, accounts, List.cons_append,
    List.nil_append]

end Course

end InferenceStore
