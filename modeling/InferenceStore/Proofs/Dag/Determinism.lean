import InferenceStore.Proofs.Dag.Dependencies

/-
A course is determined by the tensors it starts from and the results that it gets. Two courses of
the same operations that get the same results, as far as both get any, do not part.
-/

namespace InferenceStore

/-- The same results, as far as both go. -/
def Agree (first second : List (Outcome (List Tensor))) : Prop :=
  ∀ (place : Nat) (a b : Outcome (List Tensor)),
    first[place]? = some a → second[place]? = some b → a = b

namespace Agree

variable {first second : List (Outcome (List Tensor))} {a b : Outcome (List Tensor)}

theorem of_eq (same : first = second) : Agree first second := by
  intro place a b left right
  rw [same, right] at left
  exact (Option.some.inj left).symm

theorem head (agree : Agree (a :: first) (b :: second)) : a = b := agree 0 a b rfl rfl

theorem tail (agree : Agree (a :: first) (b :: second)) : Agree first second :=
  fun place x y left right => agree (place + 1) x y left right

end Agree

namespace Course

variable {context middle middle' final final' : Context} {deed other : Deed}
  {deeds deeds' : List Deed} {rest rest' : List Op}

theorem unique_one (one : Course context [deed] middle) (same : Course context [other] middle')
    (op : deed.op = other.op)
    (results : ∀ a b, deed.result? = some a → other.result? = some b → a = b) :
    deed = other ∧ middle = middle' := by
  cases one with
  | done step onward =>
      cases onward
      cases same with
      | done step' onward' =>
          cases onward'
          cases op
          rw [step] at step'
          cases step'
          exact ⟨rfl, rfl⟩
      | returned step' _ =>
          cases op
          rw [step] at step'
          cases step'
      | failed step' _ _ =>
          cases op
          rw [step] at step'
          cases step'
  | returned step onward =>
      cases onward
      cases same with
      | done step' _ =>
          cases op
          rw [step] at step'
          cases step'
      | returned step' onward' =>
          cases onward'
          cases op
          rw [step] at step'
          cases step'
          cases results _ _ rfl rfl
          exact ⟨rfl, rfl⟩
      | failed _ _ _ => cases results _ _ rfl rfl
  | failed step inTime onward =>
      cases onward
      cases same with
      | done step' _ =>
          cases op
          rw [step] at step'
          cases step'
      | returned _ _ => cases results _ _ rfl rfl
      | failed step' _ onward' =>
          cases onward'
          cases op
          rw [step] at step'
          cases step'
          cases results _ _ rfl rfl
          exact ⟨rfl, rfl⟩

theorem prefix_or_prefix (first : Course context deeds final)
    (second : Course context deeds' final')
    (ops : deeds.map Deed.op ++ rest = deeds'.map Deed.op ++ rest')
    (agree : Agree (deeds.filterMap Deed.result?) (deeds'.filterMap Deed.result?)) :
    deeds <+: deeds' ∨ deeds' <+: deeds := by
  induction deeds generalizing context deeds' with
  | nil => exact Or.inl List.nil_prefix
  | cons deed behind ih =>
      cases deeds' with
      | nil => exact Or.inr List.nil_prefix
      | cons other behind' =>
          obtain ⟨_, next, one, onward⟩ := uncons first
          obtain ⟨_, next', same, onward'⟩ := uncons second
          obtain ⟨op, opsBehind⟩ := List.cons_eq_cons.mp ops
          have results : ∀ a b, deed.result? = some a → other.result? = some b → a = b := by
            intro a b left right
            rw [List.filterMap_cons_some left, List.filterMap_cons_some right] at agree
            exact agree.head
          obtain ⟨rfl, rfl⟩ := unique_one one same op results
          have agreeBehind : Agree (behind.filterMap Deed.result?)
              (behind'.filterMap Deed.result?) := by
            cases result : deed.result? with
            | none =>
                rwa [List.filterMap_cons_none result, List.filterMap_cons_none result] at agree
            | some a =>
                rw [List.filterMap_cons_some result, List.filterMap_cons_some result] at agree
                exact agree.tail
          rcases ih onward onward' opsBehind agreeBehind with front | front
          · exact Or.inl (List.cons_prefix_cons.mpr ⟨rfl, front⟩)
          · exact Or.inr (List.cons_prefix_cons.mpr ⟨rfl, front⟩)

theorem unique (first : Course context deeds final) (second : Course context deeds' final')
    (ops : deeds.map Deed.op = deeds'.map Deed.op)
    (agree : Agree (deeds.filterMap Deed.result?) (deeds'.filterMap Deed.result?)) :
    deeds = deeds' ∧ final = final' := by
  have lengths : deeds.length = deeds'.length := by
    rw [← List.length_map (f := Deed.op), ops, List.length_map]
  have same : deeds = deeds' := by
    rcases first.prefix_or_prefix second (congrArg (· ++ []) ops) agree with front | front
    · exact front.eq_of_length lengths
    · exact (front.eq_of_length lengths.symm).symm
  subst same
  exact ⟨rfl, first.final_unique second⟩

end Course

/-! ### What is asked for -/

/-- What an operation has run if its turn comes with these names. -/
def Op.asked? (op : Op) (context : Context) : Option (Target × List Tensor × Nat) :=
  match op.step context with
  | .request target inputs _ => some (target, inputs, op.outputs.length)
  | .done _ _ => none

/-- All runs that a graph has asked for when it has come this far. -/
def Dag.asked (dag : Dag) (deeds : List Deed) (bound : Context) :
    List (Target × List Tensor × Nat) :=
  deeds.filterMap Deed.asked? ++ (dag.ops[deeds.length]?.bind fun op => op.asked? bound).toList

theorem Op.asked?_of_request {op : Op} {context : Context} {target : Target}
    {inputs : List Tensor} {outputs : List String}
    (step : op.step context = .request target inputs outputs) :
    op.asked? context = some (target, inputs, op.outputs.length) := by
  simp only [asked?, step]

theorem Dag.asked_of_done {dag : Dag} {deeds : List Deed} (ops : dag.ops = deeds.map Deed.op)
    (bound : Context) : dag.asked deeds bound = deeds.filterMap Deed.asked? := by
  have ended : dag.ops[deeds.length]? = none :=
    List.getElem?_eq_none (Nat.le_of_eq (by rw [ops, List.length_map]))
  rw [asked, ended, Option.bind_none, Option.toList_none, List.append_nil]

namespace Course

variable {dag : Dag} {context middle bound bound' : Context} {deed : Deed} {deeds : List Deed}

theorem asked?_eq (one : Course context [deed] middle) : deed.asked? = deed.op.asked? context := by
  cases one with
  | done step _ => simp only [Op.asked?, step, Deed.asked?, Option.map_none]
  | returned step _ => rw [Op.asked?_of_request step, Deed.asked?, Option.map_some]
  | failed step _ _ => rw [Op.asked?_of_request step, Deed.asked?, Option.map_some]

theorem asked_prefix (first : Course context deeds bound) {behind : List Deed}
    (second : Course context (deeds ++ behind) bound')
    (ops : (deeds ++ behind).map Deed.op <+: dag.ops) :
    dag.asked deeds bound <+: dag.asked (deeds ++ behind) bound' := by
  cases behind with
  | nil =>
      rw [List.append_nil] at second ⊢
      cases first.final_unique second
      exact List.prefix_rfl
  | cons deed rest =>
      obtain ⟨middle, front, back⟩ := split second
      obtain ⟨_, next, one, _⟩ := uncons back
      have here : dag.ops[deeds.length]? = some deed.op := by
        obtain ⟨others, same⟩ := ops
        rw [← same, List.map_append, List.append_assoc,
          List.getElem?_append_right (Nat.le_of_eq (List.length_map _)), List.length_map,
          Nat.sub_self]
        rfl
      have asked : dag.asked deeds bound = (deeds ++ [deed]).filterMap Deed.asked? := by
        rw [Dag.asked, here, Option.bind_some, first.final_unique front, ← asked?_eq one,
          List.filterMap_append]
        cases asked : deed.asked? <;> simp [asked]
      have parts : (deeds ++ deed :: rest).filterMap Deed.asked? =
          (deeds ++ [deed]).filterMap Deed.asked? ++ rest.filterMap Deed.asked? := by
        rw [← List.filterMap_append, List.append_assoc, List.singleton_append]
      rw [asked, Dag.asked, parts, List.append_assoc]
      exact List.prefix_append _ _

end Course

end InferenceStore
