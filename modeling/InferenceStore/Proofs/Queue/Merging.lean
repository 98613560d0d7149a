import InferenceStore.Proofs.Backend.Stacked
import InferenceStore.Proofs.Queue.Joining
import InferenceStore.Queue.Group

/-
Merging. The inputs of a group are the stacks of its members' inputs. When the backend takes
stacks row by row, every member gets back exactly what its own run alone would give, whether that
is an error or outputs, and however many outputs are asked for.
-/

namespace InferenceStore

theorem mapM_eq_map {α β : Type} {f : α → Outcome β} {g : α → β} {items : List α}
    (each : ∀ item ∈ items, f item = .ok (g item)) : items.mapM f = .ok (items.map g) := by
  induction items with
  | nil => rfl
  | cons item rest ih =>
      rw [List.mapM_cons, each item (List.mem_cons_self ..),
        ih fun other member => each other (List.mem_cons_of_mem _ member)]
      rfl

theorem Tensor.shared_of_pos {inputs : List Tensor} (shared : 0 < sharedBatchSize inputs) :
    ∀ tensor ∈ inputs, 0 < tensor.rank ∧ tensor.batchSize = sharedBatchSize inputs := by
  cases inputs with
  | nil => cases shared
  | cons first rest =>
      rw [sharedBatchSize] at shared ⊢
      split at shared
      · rename_i agree
        rw [if_pos agree]
        intro tensor member
        simpa using List.all_eq_true.mp agree tensor member
      · cases shared

def Request.byteLength (request : Request) : Nat :=
  sizeSum (request.inputs.map fun tensor => tensor.data.length)

namespace Group

theorem length_le_sizeSum {tensor : Tensor} {inputs : List Tensor} (member : tensor ∈ inputs) :
    tensor.data.length ≤ sizeSum (inputs.map fun tensor => tensor.data.length) := by
  induction inputs with
  | nil => cases member
  | cons first rest ih =>
      rw [List.map_cons, sizeSum]
      rcases List.mem_cons.mp member with same | inRest
      · rw [same]
        exact Nat.le_add_right ..
      · exact Nat.le_trans (ih inRest) (Nat.le_add_left ..)

theorem column_length_le (group : List Request) (position : Nat) :
    ((column group position).flatMap Tensor.data).length ≤
      sizeSum (group.map Request.byteLength) := by
  induction group with
  | nil => exact Nat.le_refl _
  | cons request rest ih =>
      have others : ((column rest position).flatMap Tensor.data).length ≤
          sizeSum (rest.map Request.byteLength) := ih
      rw [List.map_cons, sizeSum]
      cases placed : request.inputs[position]? with
      | none =>
          have skipped : column (request :: rest) position = column rest position :=
            List.filterMap_cons_none placed
          rw [skipped]
          exact Nat.le_trans others (Nat.le_add_left ..)
      | some tensor =>
          have taken : column (request :: rest) position = tensor :: column rest position :=
            List.filterMap_cons_some placed
          have own : tensor.data.length ≤ request.byteLength :=
            length_le_sizeSum (List.mem_of_getElem? placed)
          rw [taken, List.flatMap_cons, List.length_append]
          exact Nat.add_le_add own others

theorem exists_inputs_of_columns {seed : Request} {others : List Request} (several : others ≠ [])
    (sizes : ∀ request ∈ seed :: others,
      0 < request.batchSize ∧ request.inputs.length = seed.inputs.length)
    (columns : ∀ position, position < seed.inputs.length →
      ∃ whole, Tensor.stack (column (seed :: others) position) = .ok whole ∧
        ∃ row, IsStack row whole (column (seed :: others) position)) :
    ∃ wholes, inputs (seed :: others) = .ok wholes ∧
      Stacked wholes ((seed :: others).map Request.inputs) := by
  have listed : ∀ position ∈ List.range seed.inputs.length,
      ∃ whole, Tensor.stack (column (seed :: others) position) = .ok whole ∧
        ∃ row, IsStack row whole (column (seed :: others) position) :=
    fun position member => columns position (List.mem_range.mp member)
  choose! stackAt made rows isStack using listed
  refine ⟨(List.range seed.inputs.length).map stackAt, ?_, ?_, ?_, ?_⟩
  · cases others with
    | nil => exact absurd rfl several
    | cons second rest => exact mapM_eq_map made
  · intro tensors member
    obtain ⟨request, inGroup, rfl⟩ := List.mem_map.mp member
    rw [List.length_map, List.length_range]
    exact (sizes request inGroup).2
  · intro tensors member tensor inside
    obtain ⟨request, inGroup, rfl⟩ := List.mem_map.mp member
    exact (Tensor.shared_of_pos (sizes request inGroup).1 tensor inside).2
  · intro position whole placed
    rw [List.getElem?_map] at placed
    obtain ⟨found, inRange, rfl⟩ := Option.map_eq_some_iff.mp placed
    have among := List.mem_of_getElem? inRange
    obtain ⟨_, same⟩ := List.getElem?_eq_some_iff.mp inRange
    rw [List.getElem_range] at same
    subst same
    rw [List.filterMap_map]
    exact ⟨_, isStack position among⟩

/-- A seed and requests that have joined it, small enough to be stacked. -/
structure Stackable (seed : Request) (others : List Request) : Prop where
  joined : ∀ other ∈ others, seed.canJoin other = true
  occupied : 0 < seed.batchSize
  positive : ∀ tensor ∈ seed.inputs, ∀ dimension ∈ tensor.shape, 0 < dimension
  small : sizeSum ((seed :: others).map Request.byteLength) < wordLimit

namespace Stackable

variable {seed : Request} {others : List Request}

theorem exists_column (stackable : Stackable seed others) {position : Nat}
    (within : position < seed.inputs.length) :
    ∃ whole, Tensor.stack (column (seed :: others) position) = .ok whole ∧
      ∃ row, IsStack row whole (column (seed :: others) position) := by
  have placed := List.getElem?_eq_getElem within
  have inside := List.getElem_mem within
  obtain ⟨rank, size⟩ := Tensor.shared_of_pos stackable.occupied _ inside
  have column_eq : column (seed :: others) position =
      seed.inputs[position] :: column others position := List.filterMap_cons_some placed
  have compatible : ∀ part ∈ column others position,
      seed.inputs[position].stackable part = true := by
    intro part member
    obtain ⟨other, inOthers, found⟩ := List.mem_filterMap.mp member
    obtain ⟨_, _, _, _, columns⟩ := Request.canJoin_iff.mp (stackable.joined other inOthers)
    exact columns position _ part placed found
  have bytes := column_length_le (seed :: others) position
  rw [column_eq] at bytes ⊢
  obtain ⟨whole, made, isStack⟩ := Tensor.exists_stack rank compatible
    (fun dimension member => stackable.positive _ inside dimension (List.mem_of_mem_drop member))
    (size ▸ stackable.occupied) (Nat.lt_of_le_of_lt bytes stackable.small)
  exact ⟨whole, made, _, isStack⟩

theorem mem_canJoin (stackable : Stackable seed others) {request : Request}
    (member : request ∈ seed :: others) :
    0 < request.batchSize ∧ request.inputs.length = seed.inputs.length := by
  rcases List.mem_cons.mp member with same | inOthers
  · rw [same]
    exact ⟨stackable.occupied, rfl⟩
  · obtain ⟨_, _, size, count, _⟩ := Request.canJoin_iff.mp (stackable.joined request inOthers)
    exact ⟨size, count.symm⟩

theorem exists_inputs (stackable : Stackable seed others) (several : others ≠ []) :
    ∃ wholes, inputs (seed :: others) = .ok wholes ∧
      Stacked wholes ((seed :: others).map Request.inputs) :=
  exists_inputs_of_columns several (fun _ member => stackable.mem_canJoin member)
    fun _ within => stackable.exists_column within

end Stackable

end Group

/-! ### Results -/

namespace Target

variable {target : Target} {inputs : List Tensor}

theorem invoke_of_error {cause : Error} (failed : target.backendRun inputs = .error cause)
    (count : Nat) : target.invoke inputs count = .error cause := by
  rw [invoke, failed]
  rfl

theorem invoke_of_single {output : Tensor} (gave : target.backendRun inputs = .ok [output])
    (count : Nat) : target.invoke inputs count =
      match count with
      | 0 => .ok []
      | 1 => .ok [output]
      | _ + 2 => .error target.tooFewOutputs := by
  rw [invoke, gave]
  match count with
  | 0 => rfl
  | 1 => rfl
  | count + 2 =>
      have tooFew : [output].length < count + 2 := Nat.succ_lt_succ (Nat.succ_pos count)
      simp only [bind, Except.bind, if_pos tooFew]

end Target

namespace Group

variable {group : List Request}

/-- Where every output has a piece for each member, these are the pieces at its own position. -/
theorem serve_eq {members : Nat} {outputs : List (List Tensor)}
    (lengths : ∀ pieces ∈ outputs, pieces.length = members) :
    serve members outputs = (List.range members).map fun member =>
      .ok (outputs.filterMap fun pieces => pieces[member]?) := by
  induction members generalizing outputs with
  | zero => rfl
  | succ others ih =>
      have shorter : ∀ pieces ∈ outputs.map List.dropLast, pieces.length = others := by
        intro pieces member
        obtain ⟨longer, inside, rfl⟩ := List.mem_map.mp member
        rw [List.length_dropLast, lengths longer inside, Nat.add_sub_cancel]
      rw [serve, ih shorter, List.range_succ, List.map_append, List.map_singleton]
      congr 1
      · apply List.map_congr_left
        intro member within
        rw [List.filterMap_map]
        congr 1
        apply List.filterMap_congr
        intro pieces inside
        have left : member < pieces.length - 1 := by
          rw [lengths pieces inside]
          exact List.mem_range.mp within
        rw [Function.comp_apply, List.getElem?_dropLast, if_pos left]
      · congr 2
        apply List.filterMap_congr
        intro pieces inside
        rw [List.getLast?_eq_getElem?, lengths pieces inside, Nat.add_sub_cancel]

theorem results_of_failure (several : group.length ≠ 1) {outcome : Outcome (List Tensor)}
    {cause : Error} (failed : parts (group.map Request.batchSize) outcome = .error cause) :
    results group outcome = group.map fun _ => .error cause := by
  rw [results, if_neg several, failed]

theorem results_of_error (several : group.length ≠ 1) (cause : Error) :
    results group (.error cause) = group.map fun _ => .error cause :=
  results_of_failure several rfl

theorem results_of_parts (several : group.length ≠ 1) {outcome : Outcome (List Tensor)}
    {outputs : List (List Tensor)}
    (cut : parts (group.map Request.batchSize) outcome = .ok outputs)
    (lengths : ∀ pieces ∈ outputs, pieces.length = group.length) :
    results group outcome = (List.range group.length).map fun member =>
      .ok (outputs.filterMap fun pieces => pieces[member]?) := by
  rw [results, if_neg several, cut]
  exact serve_eq lengths

theorem results_of_nothing (several : group.length ≠ 1) :
    results group (.ok []) = group.map fun _ => .ok [] := by
  have cut : parts (group.map Request.batchSize) (.ok []) = .ok [] := rfl
  rw [results_of_parts several cut nofun]
  apply List.ext_getElem?
  intro position
  by_cases within : position < group.length <;> simp [within]

theorem results_of_stack (several : group.length ≠ 1) {row : List Nat} {whole : Tensor}
    {piece : Request → Tensor} (isStack : IsStack row whole (group.map piece))
    (sizes : ∀ request ∈ group, (piece request).batchSize = request.batchSize) :
    results group (.ok [whole]) = group.map fun request => .ok [piece request] := by
  have same : (group.map piece).map Tensor.batchSize = group.map Request.batchSize := by
    rw [List.map_map]
    exact List.map_congr_left sizes
  have cut : parts (group.map Request.batchSize) (.ok [whole]) = .ok [group.map piece] := by
    rw [parts, List.mapM_cons, ← same, isStack.split]
    rfl
  rw [results_of_parts several cut (List.forall_mem_singleton.mpr (List.length_map ..))]
  apply List.ext_getElem?
  intro position
  by_cases within : position < group.length <;> simp [within]

theorem results_of_rowwise {target : Target} {count : Nat} (several : group.length ≠ 1)
    {wholes : List Tensor}
    (rowwise : Rowwise target.backendRun wholes (group.map Request.inputs)) :
    results group (target.invoke wholes count) =
      group.map fun request => target.invoke request.inputs count := by
  rcases rowwise with ⟨cause, failed, allFailed⟩ | ⟨whole, row, piece, gave, isStack, pieces⟩
  · rw [Target.invoke_of_error failed, results_of_error several]
    apply List.map_congr_left
    intro request member
    exact (Target.invoke_of_error (allFailed _ (List.mem_map_of_mem member)) count).symm
  · have own : ∀ request ∈ group, target.invoke request.inputs count =
        match count with
        | 0 => .ok []
        | 1 => .ok [piece request.inputs]
        | _ + 2 => .error target.tooFewOutputs :=
      fun request member => Target.invoke_of_single (pieces _ (List.mem_map_of_mem member)).1 count
    rw [Target.invoke_of_single gave, List.map_congr_left own]
    match count with
    | 0 => exact results_of_nothing several
    | 1 =>
        rw [List.map_map] at isStack
        exact results_of_stack several isStack
          fun request member => (pieces _ (List.mem_map_of_mem member)).2
    | _ + 2 => exact results_of_error several _

theorem results_alone (request : Request) :
    results [request] (run [request] (inputs [request])) =
      [request.target.invoke request.inputs request.outputCount] := rfl

theorem results_of_stacked {seed : Request} {others : List Request} {target : Target} {count : Nat}
    (several : others ≠ []) {wholes : List Tensor} (made : inputs (seed :: others) = .ok wholes)
    (stacked : Stacked wholes ((seed :: others).map Request.inputs))
    (rowwise : ∀ wholes members, Stacked wholes members →
      Rowwise target.backendRun wholes members)
    (targets : ∀ request ∈ seed :: others, request.target = target)
    (counts : ∀ request ∈ seed :: others, request.outputCount = count) :
    results (seed :: others) (run (seed :: others) (inputs (seed :: others))) =
      (seed :: others).map fun request =>
        request.target.invoke request.inputs request.outputCount := by
  have members : (seed :: others).length ≠ 1 := by simpa using several
  have once : run (seed :: others) (inputs (seed :: others)) = target.invoke wholes count := by
    rw [made, ← targets seed (List.mem_cons_self ..), ← counts seed (List.mem_cons_self ..)]
    rfl
  rw [once, results_of_rowwise members (rowwise _ _ stacked)]
  apply List.map_congr_left
  intro request member
  rw [targets request member, counts request member]

/-- Merging is not noticed by any member. -/
theorem results_of_merged {seed : Request} {others : List Request} {target : Target} {count : Nat}
    (stackable : others ≠ [] → Stackable seed others)
    (rowwise : ∀ wholes members, Stacked wholes members →
      Rowwise target.backendRun wholes members)
    (targets : ∀ request ∈ seed :: others, request.target = target)
    (counts : ∀ request ∈ seed :: others, request.outputCount = count) :
    results (seed :: others) (run (seed :: others) (inputs (seed :: others))) =
      (seed :: others).map fun request =>
        request.target.invoke request.inputs request.outputCount := by
  by_cases alone : others = []
  · subst alone
    exact results_alone seed
  · obtain ⟨wholes, made, stacked⟩ := (stackable alone).exists_inputs alone
    exact results_of_stacked alone made stacked rowwise targets counts

end Group

end InferenceStore
