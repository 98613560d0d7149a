import InferenceStore.Backend.Arithmetic
import InferenceStore.Entity.Target

/-
Runs that never fail as an expired request does. That failure ends a whole graph, so a graph whose
operations are to be told one by one may run only what does not give it. The backend of small
arithmetic models does not: it fails for its inputs, or for the tensor that it would give.
-/

namespace InferenceStore

namespace Outcome

/-- Whatever it is, it is not what a request gets that has expired. -/
def InTime {α : Type} (outcome : Outcome α) : Prop := outcome ≠ .error .timedOut

section

variable {α β : Type} {outcome : Outcome α}

theorem inTime_ok (value : α) : InTime (.ok value) := nofun

theorem inTime_tensor (fault : TensorFault) : InTime (.error (.tensor fault) : Outcome α) := nofun

theorem inTime_backend (fault : BackendFault) : InTime (.error (.backend fault) : Outcome α) :=
  nofun

theorem InTime.bind (inTime : outcome.InTime) {next : α → Outcome β}
    (onward : ∀ value, (next value).InTime) : (outcome >>= next).InTime := by
  cases outcome with
  | error cause => exact fun same => inTime (congrArg Except.error (Except.error.inj same))
  | ok value => exact onward value

theorem InTime.map (inTime : outcome.InTime) (change : α → β) :
    InTime (outcome.map change) := by
  cases outcome with
  | error cause => exact fun same => inTime (congrArg Except.error (Except.error.inj same))
  | ok value => exact inTime_ok _

theorem inTime_foldlM {step : β → α → Outcome β} (each : ∀ state item, (step state item).InTime)
    (items : List α) (state : β) : (items.foldlM step state).InTime := by
  induction items generalizing state with
  | nil => exact inTime_ok state
  | cons item rest ih =>
      rw [List.foldlM_cons]
      exact (each state item).bind ih

end

end Outcome

open Outcome

namespace Tensor

theorem inTime_ofData (dtype : DType) (shape : List Nat) (data : Bytes) :
    (ofData dtype shape data).InTime := by
  unfold ofData
  split
  · exact inTime_ok _
  · split <;> exact inTime_tensor _

theorem inTime_ofNumbers (dtype : DType) (shape : List Nat) (numbers : List Number.Binary64) :
    (ofNumbers dtype shape numbers).InTime := by
  unfold ofNumbers
  split
  · exact inTime_ofData _ _ _
  · exact inTime_tensor _

theorem inTime_stack (parts : List Tensor) : (stack parts).InTime := by
  unfold stack
  split
  · exact inTime_tensor _
  · exact inTime_ok _
  · dsimp only
    split
    · exact inTime_ofData _ _ _
    · exact inTime_tensor _

end Tensor

namespace Arithmetic

theorem inTime_combine (operation : Number.Binary64 → Number.Binary64 → Number.Binary64)
    (shape : List Nat) (values : List Number.Binary64) (other : Tensor) :
    (combine operation shape values other).InTime := by
  unfold combine
  split
  · exact inTime_backend _
  · split
    · exact inTime_backend _
    · exact inTime_ok _

theorem inTime_elementwise (operation : Number.Binary64 → Number.Binary64 → Number.Binary64)
    (inputs : List Tensor) : (elementwise operation inputs).InTime := by
  unfold elementwise
  split
  · exact inTime_backend _
  · split
    · exact inTime_backend _
    · exact (inTime_foldlM (inTime_combine operation _) _ _).bind fun _ =>
        Tensor.inTime_ofNumbers _ _ _

theorem inTime_output (operation : Operation) (inputs : List Tensor) :
    (operation.output inputs).InTime := by
  unfold Operation.output
  split
  · exact inTime_elementwise _ _
  · exact inTime_elementwise _ _
  · exact inTime_backend _
  · exact Tensor.inTime_stack _
  · exact inTime_ok _
  · exact inTime_ok _
  · exact inTime_backend _

theorem inTime_run (operation : Operation) (inputs : List Tensor) :
    (operation.run inputs).InTime := by
  unfold Operation.run
  split
  · exact inTime_backend _
  · exact (inTime_output operation inputs).map _

theorem inTime_runFunction (function : String) (call : ScriptCall) :
    (runFunction function call).InTime := by
  unfold runFunction
  split
  · exact inTime_backend _
  · exact (inTime_elementwise _ _).map _

end Arithmetic

def ModelHandle.IsArithmetic (handle : ModelHandle) : Prop :=
  ∃ kind blob options, (Arithmetic.backend kind).loadModel blob options = .ok handle

def ScriptHandle.IsArithmetic (handle : ScriptHandle) : Prop :=
  ∃ kind source device, (Arithmetic.backend kind).loadScript source device = .ok handle

namespace Target

def IsArithmetic : Target → Prop
  | .model m => m.handle.IsArithmetic
  | .script s => s.script.handle.IsArithmetic

variable {target : Target}

theorem IsArithmetic.backendRun (loaded : target.IsArithmetic) (inputs : List Tensor) :
    (target.backendRun inputs).InTime := by
  cases target with
  | model m =>
      obtain ⟨kind, blob, options, handle⟩ := loaded
      simp only [Arithmetic.backend] at handle
      split at handle
      · rename_i operation _
        have runs : m.handle = operation.handle := (Except.ok.inj handle).symm
        rw [Target.backendRun, runs]
        exact Arithmetic.inTime_run operation inputs
      · cases handle
  | script s =>
      obtain ⟨kind, source, device, handle⟩ := loaded
      simp only [Arithmetic.backend] at handle
      split at handle
      · cases handle
      · have runs := congrArg ScriptHandle.run (Except.ok.inj handle)
        rw [Target.backendRun, Script.call, ← runs]
        split
        · exact Arithmetic.inTime_runFunction _ _
        · exact inTime_backend _

theorem IsArithmetic.invoke (loaded : target.IsArithmetic) (inputs : List Tensor)
    (outputCount : Nat) : (target.invoke inputs outputCount).InTime := by
  refine (loaded.backendRun inputs).bind fun outputs => ?_
  split
  · cases target <;> exact inTime_backend _
  · exact inTime_ok _

end Target

end InferenceStore
