import InferenceStore.Engine.Execution
import Mathlib.Data.List.Basic

/-
Writing names back to their keys. The names of a graph are distinct, so whether a key admits a
tensor does not depend on the writes before it: the block is one put for each bound name, and the
failures can be read off the keyspace that the block starts from.
-/

namespace InferenceStore

namespace Keyspace

/-- A key that holds nothing or a tensor takes a tensor. -/
def admitsTensor (keyspace : Keyspace) (key : String) : Bool :=
  match keyspace.get? key with
  | none | some (.tensor _) => true
  | some _ => false

theorem putTensor_eq (keyspace : Keyspace) (key : String) (tensor : Tensor) :
    keyspace.putTensor key tensor =
      if keyspace.admitsTensor key then .ok (keyspace.set key (.tensor tensor))
      else .error .wrongType := by
  unfold putTensor admitsTensor
  cases keyspace.get? key with
  | none => rfl
  | some value => cases value <;> rfl

theorem admitsTensor_set {keyspace : Keyspace} {key other : String} (apart : other ≠ key)
    (value : Value) :
    (keyspace.set key value).admitsTensor other = keyspace.admitsTensor other := by
  unfold admitsTensor
  rw [get?_set, if_neg apart]

/-- A put that changes nothing if the key holds a value of another type. -/
def offer (keyspace : Keyspace) (put : String × Tensor) : Keyspace :=
  if keyspace.admitsTensor put.1 then keyspace.set put.1 (.tensor put.2) else keyspace

end Keyspace

namespace Context

variable {context : Context} {keyspace : Keyspace} {name key : String} {names : List String}

def puts (context : Context) (names : List String) : List (String × Tensor) :=
  names.filterMap fun name => (context.get? name).map fun tensor => (name, tensor)

def fault? (context : Context) (keyspace : Keyspace) (name : String) : Option Error :=
  if (context.get? name).isNone then some (.dag .persistUnbound)
  else if keyspace.admitsTensor name then none
  else some .wrongType

theorem refused_of_fault {cause : Error} (bound : (context.get? name).isSome = true)
    (fault : context.fault? keyspace name = some cause) :
    keyspace.admitsTensor name = false ∧ cause = .wrongType := by
  have isBound : ¬ (context.get? name).isNone = true := by simp [Option.isSome_iff_ne_none.mp bound]
  unfold fault? at fault
  rw [if_neg isBound] at fault
  split at fault
  · cases fault
  · rename_i refused
    cases fault
    exact ⟨Bool.eq_false_iff.mpr refused, rfl⟩

theorem persist_cons_unbound (unbound : context.get? name = none) :
    persist context keyspace (name :: names) =
      ((persist context keyspace names).1,
        .dag .persistUnbound :: (persist context keyspace names).2) := by
  simp only [persist, unbound]

theorem persist_cons_refused {tensor : Tensor} (bound : context.get? name = some tensor)
    (refused : keyspace.admitsTensor name = false) :
    persist context keyspace (name :: names) =
      ((persist context keyspace names).1, .wrongType :: (persist context keyspace names).2) := by
  have kept := keyspace.putTensor_eq name tensor
  rw [refused, if_neg Bool.false_ne_true] at kept
  simp only [persist, bound, kept]

theorem persist_cons_written {tensor : Tensor} (bound : context.get? name = some tensor)
    (admitted : keyspace.admitsTensor name = true) :
    persist context keyspace (name :: names) =
      persist context (keyspace.set name (.tensor tensor)) names := by
  have written := keyspace.putTensor_eq name tensor
  rw [admitted, if_pos rfl] at written
  simp only [persist, bound, written]

theorem keyspace_of_persist :
    (persist context keyspace names).1 = (context.puts names).foldl Keyspace.offer keyspace := by
  induction names generalizing keyspace with
  | nil => rfl
  | cons name rest ih =>
      cases bound : context.get? name with
      | none =>
          rw [persist_cons_unbound bound, ih]
          simp only [puts, List.filterMap_cons, bound, Option.map_none]
      | some tensor =>
          have front : context.puts (name :: rest) = (name, tensor) :: context.puts rest := by
            simp only [puts, List.filterMap_cons, bound, Option.map_some]
          rw [front, List.foldl_cons]
          cases admitted : keyspace.admitsTensor name with
          | true =>
              rw [persist_cons_written bound admitted, ih, Keyspace.offer, if_pos admitted]
          | false =>
              rw [persist_cons_refused bound admitted, ih, Keyspace.offer, admitted,
                if_neg Bool.false_ne_true]

theorem fault?_set (apart : name ≠ key) (value : Value) :
    context.fault? (keyspace.set key value) name = context.fault? keyspace name := by
  unfold fault?
  rw [Keyspace.admitsTensor_set apart]

theorem faults_of_persist (distinct : names.Nodup) :
    (persist context keyspace names).2 = names.filterMap (context.fault? keyspace) := by
  induction names generalizing keyspace with
  | nil => rfl
  | cons name rest ih =>
      obtain ⟨absent, others⟩ := List.nodup_cons.mp distinct
      rw [List.filterMap_cons]
      cases bound : context.get? name with
      | none =>
          have fault : context.fault? keyspace name = some (.dag .persistUnbound) := by
            simp [fault?, bound]
          rw [persist_cons_unbound bound, fault, ih others]
      | some tensor =>
          cases admitted : keyspace.admitsTensor name with
          | true =>
              have fault : context.fault? keyspace name = none := by simp [fault?, bound, admitted]
              rw [persist_cons_written bound admitted, fault, ih others]
              refine List.filterMap_congr fun other member => ?_
              exact fault?_set (ne_of_mem_of_not_mem member absent) _
          | false =>
              have fault : context.fault? keyspace name = some .wrongType := by
                simp [fault?, bound, admitted]
              rw [persist_cons_refused bound admitted, fault, ih others]

theorem get?_of_persist_absent (absent : key ∉ names) :
    (persist context keyspace names).1.get? key = keyspace.get? key := by
  induction names generalizing keyspace with
  | nil => rfl
  | cons name rest ih =>
      obtain ⟨apart, inRest⟩ := not_or.mp (fun either => absent (List.mem_cons.mpr either))
      cases bound : context.get? name with
      | none =>
          rw [persist_cons_unbound bound]
          exact ih inRest
      | some tensor =>
          cases admitted : keyspace.admitsTensor name with
          | true =>
              rw [persist_cons_written bound admitted, ih inRest, Keyspace.get?_set, if_neg apart]
          | false =>
              rw [persist_cons_refused bound admitted]
              exact ih inRest

theorem get?_of_persist (distinct : names.Nodup) (member : key ∈ names) :
    (persist context keyspace names).1.get? key =
      match context.get? key with
      | some tensor =>
          if keyspace.admitsTensor key then some (.tensor tensor) else keyspace.get? key
      | none => keyspace.get? key := by
  induction names generalizing keyspace with
  | nil => cases member
  | cons name rest ih =>
      obtain ⟨absent, others⟩ := List.nodup_cons.mp distinct
      cases bound : context.get? name with
      | none =>
          rw [persist_cons_unbound bound]
          rcases List.mem_cons.mp member with same | inRest
          · rw [same, bound]
            exact get?_of_persist_absent absent
          · exact ih others inRest
      | some tensor =>
          cases admitted : keyspace.admitsTensor name with
          | true =>
              rw [persist_cons_written bound admitted]
              rcases List.mem_cons.mp member with same | inRest
              · rw [same, bound, get?_of_persist_absent absent, Keyspace.get?_set, if_pos rfl]
                simp only [admitted, if_true]
              · have apart := ne_of_mem_of_not_mem inRest absent
                rw [ih others inRest, Keyspace.get?_set, if_neg apart,
                  Keyspace.admitsTensor_set apart]
          | false =>
              rw [persist_cons_refused bound admitted]
              rcases List.mem_cons.mp member with same | inRest
              · rw [same, bound, get?_of_persist_absent absent]
                simp only [admitted, Bool.false_eq_true, if_false]
              · exact ih others inRest

end Context

/-- One block of writes: the names are distinct, each bound one is put once with its tensor, and
each that cannot be written gives its own failure. -/
structure Persisted (context : Context) (names : List String) (before after : Keyspace)
    (failures : List Error) : Prop where
  distinct : names.Nodup
  puts : after = (context.puts names).foldl Keyspace.offer before
  written : ∀ name ∈ names, ∀ tensor, context.get? name = some tensor →
    before.admitsTensor name = true → after.get? name = some (.tensor tensor)
  refused : ∀ name, before.admitsTensor name = false → after.get? name = before.get? name
  unbound : ∀ name, context.get? name = none → after.get? name = before.get? name
  elsewhere : ∀ key, key ∉ names → after.get? key = before.get? key
  failures : failures = names.filterMap (context.fault? before)

theorem persisted (context : Context) (keyspace : Keyspace) {names : List String}
    (distinct : names.Nodup) :
    Persisted context names keyspace (persist context keyspace names).1
      (persist context keyspace names).2 where
  distinct := distinct
  puts := Context.keyspace_of_persist
  written := by
    intro name member tensor bound admitted
    rw [Context.get?_of_persist distinct member, bound]
    simp only [admitted, if_true]
  refused := by
    intro name refused
    by_cases member : name ∈ names
    · rw [Context.get?_of_persist distinct member]
      cases context.get? name with
      | none => rfl
      | some tensor => simp only [refused, Bool.false_eq_true, if_false]
    · exact Context.get?_of_persist_absent member
  unbound := by
    intro name unbound
    by_cases member : name ∈ names
    · rw [Context.get?_of_persist distinct member, unbound]
    · exact Context.get?_of_persist_absent member
  elsewhere := fun _ absent => Context.get?_of_persist_absent absent
  failures := Context.faults_of_persist distinct

end InferenceStore
