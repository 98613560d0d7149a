import InferenceStore.Proofs.Tensor.Stack
import InferenceStore.Queue.Request

/-
Which requests may share a run. Among requests that have samples, joining is symmetric and
transitive, so the requests of one instance fall into classes. Requests whose instance does not
batch form one class of their own, whatever their instances.
-/

namespace InferenceStore

namespace Request

variable {a b c : Request}

theorem canJoin_iff : a.canJoin b = true ↔
    a.target.instanceId = b.target.instanceId ∧ 0 < a.batchSize ∧ 0 < b.batchSize ∧
      a.inputs.length = b.inputs.length ∧
      ∀ (position : Nat) (x y : Tensor), a.inputs[position]? = some x →
        b.inputs[position]? = some y → x.stackable y = true := by
  have columns : (a.inputs.zip b.inputs).all (fun pair => pair.1.stackable pair.2) = true ↔
      ∀ (position : Nat) (x y : Tensor), a.inputs[position]? = some x →
        b.inputs[position]? = some y → x.stackable y = true := by
    rw [List.all_eq_true]
    constructor
    · intro compatible position x y left right
      exact compatible (x, y) (List.mem_iff_getElem?.mpr
        ⟨position, List.getElem?_zip_eq_some.mpr ⟨left, right⟩⟩)
    · rintro compatible ⟨x, y⟩ member
      obtain ⟨position, placed⟩ := List.mem_iff_getElem?.mp member
      obtain ⟨left, right⟩ := List.getElem?_zip_eq_some.mp placed
      exact compatible position x y left right
  simp only [canJoin, Bool.and_eq_true, beq_iff_eq, decide_eq_true_eq, and_assoc, columns]

theorem canJoin_symm (joins : a.canJoin b = true) : b.canJoin a = true := by
  obtain ⟨target, first, second, count, compatible⟩ := canJoin_iff.mp joins
  exact canJoin_iff.mpr ⟨target.symm, second, first, count.symm,
    fun position x y left right => Tensor.stackable_symm (compatible position y x right left)⟩

theorem canJoin_trans (front : a.canJoin b = true) (back : b.canJoin c = true) :
    a.canJoin c = true := by
  obtain ⟨target, first, _, count, compatible⟩ := canJoin_iff.mp front
  obtain ⟨target', _, third, count', compatible'⟩ := canJoin_iff.mp back
  refine canJoin_iff.mpr ⟨target.trans target', first, third, count.trans count', ?_⟩
  intro position x z left right
  have within : position < b.inputs.length := by
    rw [← count]
    exact (List.getElem?_eq_some_iff.mp left).1
  have middle : b.inputs[position]? = some b.inputs[position] := List.getElem?_eq_getElem within
  exact Tensor.stackable_trans (compatible position x _ left middle)
    (compatible' position _ z middle right)

/-- Requests that run in the order of their arrival. -/
def SameClass (a b : Request) : Prop :=
  a.canJoin b = true ∨ a.policy.isEnabled = false ∧ b.policy.isEnabled = false

theorem SameClass.symm (related : a.SameClass b) : b.SameClass a := by
  rcases related with joins | ⟨first, second⟩
  · exact Or.inl (canJoin_symm joins)
  · exact Or.inr ⟨second, first⟩

end Request

inductive Loaded where
  | model (model : Model)
  | script (script : Script)

def Target.loaded : Target → Loaded
  | .model m => .model m
  | .script s => .script s.script

theorem Target.policy_eq_of_loaded {a b : Target} (same : a.loaded = b.loaded) :
    a.policy = b.policy := by
  cases a <;> cases b <;> simp_all [Target.loaded, Target.policy]

/-- The number of a loaded model or script names it: no two loads share one. -/
def Identified (requests : List Request) : Prop :=
  ∀ a ∈ requests, ∀ b ∈ requests,
    a.target.instanceId = b.target.instanceId → a.target.loaded = b.target.loaded

theorem Identified.subset {part whole : List Request} (identified : Identified whole)
    (within : part ⊆ whole) : Identified part :=
  fun a inA b inB => identified a (within inA) b (within inB)

theorem Identified.pair {requests : List Request} (identified : Identified requests)
    {a b : Request} (first : a ∈ requests) (second : b ∈ requests) : Identified [a, b] :=
  identified.subset (by simp [first, second])

/-- A seed that batches can be joined by all requests of a class or by none. -/
theorem Request.SameClass.joined {seed a b : Request} (related : a.SameClass b)
    (batches : seed.policy.isEnabled = true) (identified : Identified [seed, a])
    (joins : seed.canJoin a = true) : seed.canJoin b = true := by
  rcases related with equal | ⟨disabled, _⟩
  · exact canJoin_trans joins equal
  · have same := identified seed (by simp) a (by simp) (canJoin_iff.mp joins).1
    have policy : seed.policy = a.policy := Target.policy_eq_of_loaded same
    rw [policy, disabled] at batches
    cases batches

end InferenceStore
